import PgRouter.Foundation.Files
import PgRouter.Monitor.Report

/-!
# Into the background

`daemonize` opens the pidfile, looks up the user and the group, and forks. The child takes the lock on the pidfile,
writes its number there, and gives up the rights of `root`. The parent prints what the child tells it through a pipe,
until the child closes the pipe or ends.

## The model

A process is before one of its calls (`Place`), and a step is what comes of a call in one process (`System.step`). So
any number of routers may be started, with the same pidfile or with others, and take turns in any order, and each of
them may be killed at any time. What `stderr` of the child shows is left out. The result of `read` is taken for an
unsigned number, so when it fails, `-1` is a length, and the NUL goes in front of the buffer; what comes of that is not
modelled (`Place.underrun`).

The standard streams are open when a router is started: the numbers of descriptors are not modelled, and else the
pidfile could be opened as one of them, and `freopen` close it.
-/

namespace PgRouter.Daemon

open Foundation Text Wire

universe u v

/-- The real, the effective and the saved user, or group, of a process. -/
structure Ids where
  /-- `getuid()`, or `getgid()`. -/
  real : ℕ
  /-- The one that counts. -/
  effective : ℕ
  /-- The one that it may go back to. -/
  saved : ℕ
  deriving DecidableEq

/-- The three are the same. -/
def Ids.all (n : ℕ) : Ids := ⟨n, n, n⟩

/-- `setuid`, or `setgid`: `root` changes all three. -/
def Ids.set (x : Ids) (root : Bool) (n : ℕ) : Option Ids :=
  if root then some (.all n) else if n = x.real ∨ n = x.saved then some { x with effective := n } else none

/-- A pidfile. -/
structure Pidfile (ν : Type u) where
  /-- Its path. -/
  path : CString
  /-- What the path names in the directory where the router is started. -/
  opened : ν
  /-- What it names in the root directory. -/
  removed : ν

/-- What a router is started with. -/
structure Start (ν : Type u) where
  /-- The pidfile, if there is one. -/
  pidfile : Option (Pidfile ν)
  /-- The name of the user. -/
  user : CString
  /-- The name of the group. -/
  group : CString
  /-- `pw->pw_uid`. -/
  pwUid : ℕ
  /-- `gr->gr_gid`. -/
  grGid : ℕ
  /-- The user that starts it. -/
  uid : Ids
  /-- The group that starts it. -/
  gid : Ids

/-- Where a process is. -/
inductive Place where
  /-- Before `open`. -/
  | opening
  /-- Before `getpwnam`. -/
  | lookingUpUser
  /-- Before `getgrnam`. -/
  | lookingUpGroup
  /-- Before `chdir`. -/
  | changing
  /-- Before `pipe`. -/
  | piping
  /-- Before `fork`. -/
  | forking
  /-- In the parent, before `read`. -/
  | waiting
  /-- In the child, before `fcntl`. -/
  | locking
  /-- Before `setsid`. -/
  | leaving
  /-- Before `write`. -/
  | writing
  /-- Before `fchown`. -/
  | owning
  /-- Before `setgid`. -/
  | grouping
  /-- Before `setuid`. -/
  | switching
  /-- Before `unlink`. -/
  | removing
  /-- Before the streams are redirected and the pipe is closed. -/
  | closing
  /-- Behind `daemonize`. -/
  | serving
  /-- Before `exit(2)`. -/
  | exiting
  /-- It has ended. -/
  | exited (status : ℕ)
  /-- It has been killed. -/
  | killed
  /-- It has written behind its buffer. -/
  | overrun
  /-- It has written in front of its buffer, as `read` has failed. -/
  | underrun
  deriving DecidableEq

/-- The process is there no more. -/
def Place.gone : Place → Bool
  | .exited _ | .killed => true
  | _ => false

/-- The process, a child, has the pipe no more. -/
def Place.closed : Place → Bool
  | .serving => true
  | x => x.gone

/-- A process, where the processes are `ι`. -/
structure Proc (ν : Type u) (ι : Type v) where
  /-- What it is started with. -/
  start : Start ν
  /-- `getpid()`. -/
  pid : ℕ
  /-- Where it is. -/
  place : Place
  /-- The file that `fd` is opened on. -/
  fd : Option ℕ
  /-- Its user. -/
  uid : Ids
  /-- Its group. -/
  gid : Ids
  /-- Its child. -/
  child : Option ι
  /-- Whether all of its number has been written to the pidfile. -/
  wrote : Bool
  /-- What it has written to the pipe. -/
  told : List Octet
  /-- What it has read from the pipe. -/
  heard : List Octet
  /-- What it has printed on `stderr`. -/
  printed : List Octet

/-- A router is started, as the process with the number `pid`. -/
def Start.begin {ν : Type u} {ι : Type v} (c : Start ν) (pid : ℕ) : Proc ν ι where
  start := c
  pid := pid
  place := .opening
  fd := none
  uid := c.uid
  gid := c.gid
  child := none
  wrote := false
  told := []
  heard := []
  printed := []

/-! ### What is written -/

/-- `EACCES`. -/
def EACCES : ℕ := 13

/-- `EAGAIN`. -/
def EAGAIN : ℕ := 11

/-- `snprintf(buf, 8, "%i\n", getpid())`: a number of seven figures comes without the newline. -/
def pidLine (pid : ℕ) : List Octet := (Monitor.formatD pid ++ octets "\n").take 7

section Messages

variable (strerror : ℕ → CString) {ν : Type u}

/-- What is told of the call in which the process fails, `errno` being the number of the error. -/
def message (c : Start ν) (errno : ℕ) : Place → List Octet
  | .opening => (c.pidfile.elim [] Pidfile.path) ++ octets ": " ++ strerror errno ++ octets "\n"
  | .lookingUpUser => octets "Failed to look up user '" ++ c.user ++ octets "': " ++
      (if errno = 0 then octets "user not found" else strerror errno) ++ octets "\n"
  | .lookingUpGroup => octets "Failed to look up group '" ++ c.group ++ octets "': " ++
      (if errno = 0 then octets "group not found" else strerror errno) ++ octets "\n"
  | .changing => octets "Failed to change directory to /: " ++ strerror errno ++ octets "\n"
  | .piping => octets "Failed to create communication pipe: " ++ strerror errno ++ octets "\n"
  | .forking => octets "Failed to fork child process: " ++ strerror errno ++ octets "\n"
  | .locking => octets "Failed to acquire lock on " ++ (c.pidfile.elim [] Pidfile.path) ++ octets "." ++
      (if errno = EACCES ∨ errno = EAGAIN then octets "  Is another copy running?" else strerror errno) ++ octets "\n"
  | .leaving => octets "Failed to drop controlling terminal: " ++ strerror errno ++ octets "\n"
  | .owning => octets "Failed to change user/groupd ownership of pidfile " ++ (c.pidfile.elim [] Pidfile.path) ++
      octets ": " ++ strerror errno ++ octets "\n"
  | .grouping => octets "Failed to switch to group '" ++ c.group ++ octets "': " ++ strerror errno ++ octets "\n"
  | .switching => octets "Failed to switch to user '" ++ c.user ++ octets "': " ++ strerror errno ++ octets "\n"
  | _ => []

/-- The message in `error`, which has 8192 octets with the NUL. -/
def informed (c : Start ν) (errno : ℕ) (x : Place) : List Octet := (message strerror c errno x).take 8191

end Messages

/-! ### The processes -/

/-- The processes, and the files. -/
structure System (ν : Type u) (ι : Type v) where
  /-- The files, which belong to a user and a group. -/
  files : Files ν ι (ℕ × ℕ) Octet
  /-- The processes that have been started. -/
  procs : ι → Option (Proc ν ι)

/-- What comes of a call. -/
inductive Event (ν : Type u) (ι : Type v) where
  /-- The process is started, with the number `pid`. -/
  | starts (c : Start ν) (pid : ℕ)
  /-- The call succeeds. -/
  | succeeds
  /-- It fails with the error `errno`. If that is told the parent, `n` octets of the message go into the pipe. -/
  | fails (errno n : ℕ)
  /-- `fork` makes the process `child` with the number `pid`. -/
  | forks (child : ι) (pid : ℕ)
  /-- `read` or `write` moves `n` octets. -/
  | moves (n : ℕ)
  /-- The process is killed. -/
  | killed

/-- Where `root` goes on, or another user, behind the lock if there is no pidfile. -/
def Proc.settle {ν : Type u} {ι : Type v} (p : Proc ν ι) : Place := if p.uid.real = 0 then .grouping else .closing

/-- Where they go on behind the `write`. -/
def Proc.afterWriting {ν : Type u} {ι : Type v} (p : Proc ν ι) : Place := if p.uid.real = 0 then .owning else .closing

namespace System

variable {ν : Type u} {ι : Type v}

/-- The files have become `fs`. -/
def withFiles (s : System ν ι) (fs : Files ν ι (ℕ × ℕ) Octet) : System ν ι := { s with files := fs }

@[simp] theorem withFiles_files (s : System ν ι) (fs : Files ν ι (ℕ × ℕ) Octet) : (s.withFiles fs).files = fs := rfl

variable [DecidableEq ι]

/-- The process `i` has become `p`. -/
def put (s : System ν ι) (i : ι) (p : Proc ν ι) : System ν ι := { s with procs := Function.update s.procs i (some p) }

/-- The process `i`, which is `p`, ends. -/
def quit (s : System ν ι) (i : ι) (p : Proc ν ι) (x : Place) : System ν ι :=
  (s.withFiles (s.files.release i)).put i { p with place := x }

@[simp] theorem put_files (s : System ν ι) (i : ι) (p : Proc ν ι) : (s.put i p).files = s.files := rfl

/-- A process is the one that has been put, or one that was there before. -/
theorem put_procs {s : System ν ι} {i j : ι} {p q : Proc ν ι} (h : (s.put i p).procs j = some q) :
    j = i ∧ q = p ∨ j ≠ i ∧ s.procs j = some q := by
  by_cases hj : j = i
  · subst hj
    have hself : some p = some q := by simpa only [put, Function.update_self] using h
    exact .inl ⟨rfl, (Option.some.inj hself).symm⟩
  · exact .inr ⟨hj, by simpa only [put, Function.update_of_ne hj] using h⟩

variable [DecidableEq ν]

/-- The call of the process `i`, which is `p`, succeeds. -/
def succeed (s : System ν ι) (i : ι) (p : Proc ν ι) : Option (System ν ι) :=
  match p.place with
  | .opening => match p.start.pidfile with
    | none => some (s.put i { p with place := .lookingUpUser })
    | some file =>
      let x := s.files.create file.opened (p.uid.effective, p.gid.effective)
      some ((s.withFiles x.2).put i { p with place := .lookingUpUser, fd := some x.1 })
  | .lookingUpUser => some (s.put i { p with place := .lookingUpGroup })
  | .lookingUpGroup => some (s.put i { p with place := .changing })
  | .changing => some (s.put i { p with place := .piping })
  | .piping => some (s.put i { p with place := .forking })
  | .waiting => (p.child.bind s.procs).bind fun q =>
      if q.place.closed ∧ p.heard = q.told then some (s.quit i p (.exited 0)) else none
  | .locking => match p.fd with
    | none => some (s.put i { p with place := .leaving })
    | some f => (s.files.setlk i f).map fun fs => (s.withFiles fs).put i { p with place := .leaving }
  | .leaving => some (s.put i { p with place := if p.fd.isSome then .writing else p.settle })
  | .owning => p.fd.map fun f =>
      (s.withFiles (s.files.chown f (p.start.pwUid, p.start.grGid))).put i { p with place := .grouping }
  | .grouping =>
    if p.start.grGid = p.gid.real then some (s.put i { p with place := .switching })
    else (p.gid.set (p.uid.effective = 0) p.start.grGid).map fun x => s.put i { p with place := .switching, gid := x }
  | .switching =>
    if p.start.pwUid = p.uid.real then some (s.put i { p with place := .closing })
    else (p.uid.set (p.uid.effective = 0) p.start.pwUid).map fun x => s.put i { p with place := .closing, uid := x }
  | .removing => p.start.pidfile.bind fun file =>
      if (s.files.entry file.removed).isSome then
        some ((s.withFiles (s.files.unlink file.removed)).put i { p with place := .exiting })
      else none
  | .closing => some (s.put i { p with place := .serving })
  | .exiting => some (s.quit i p (.exited 2))
  | _ => none

/-- The call of the process `i`, which is `p`, fails, and `n` octets of the message go into the pipe. -/
def fail (strerror : ℕ → CString) (s : System ν ι) (i : ι) (p : Proc ν ι) (errno n : ℕ) : Option (System ν ι) :=
  let print := s.put i { p with place := .exiting, printed := p.printed ++ message strerror p.start errno p.place }
  let tell (x : Place) :=
    s.put i { p with place := x, told := p.told ++ (informed strerror p.start errno p.place).take n }
  match p.place with
  | .opening => if p.start.pidfile.isSome then some print else none
  | .lookingUpUser | .lookingUpGroup | .changing | .piping | .forking => some print
  | .locking => if p.fd.isSome then some (tell .exiting) else none
  | .leaving => some (tell .exiting)
  | .writing => some (s.put i { p with place := p.afterWriting })
  | .owning => some (tell .removing)
  | .grouping => if p.start.grGid = p.gid.real then none else some (tell .removing)
  | .switching => if p.start.pwUid = p.uid.real then none else some (tell .removing)
  | .removing => some (s.put i { p with place := .exiting })
  -- `n` is a `size_t`, so the loop goes on with `buf[-1]`.
  | .waiting => some (s.put i { p with place := .underrun })
  | _ => none

/-- The process `i`, which is `p`, reads or writes `n` octets. -/
def transfer (s : System ν ι) (i : ι) (p : Proc ν ι) (n : ℕ) : Option (System ν ι) :=
  match p.place with
  | .waiting => (p.child.bind s.procs).bind fun q =>
      let part := (q.told.drop p.heard.length).take n
      if part.length = n ∧ 0 < n ∧ n ≤ 8192 then
        -- The NUL goes to buf[n], and buf has 8192 octets.
        some (s.put i { p with
          place := if n = 8192 then .overrun else .waiting
          heard := p.heard ++ part
          printed := p.printed ++ part })
      else none
  | .writing => p.fd.bind fun f =>
      if n ≤ (pidLine p.pid).length then
        some ((s.withFiles (s.files.write f ((pidLine p.pid).take n))).put i { p with
          place := p.afterWriting
          wrote := n = (pidLine p.pid).length })
      else none
  | _ => none

/-- What comes of a call of the process `i`. -/
def step (strerror : ℕ → CString) (s : System ν ι) (i : ι) (e : Event ν ι) : Option (System ν ι) :=
  match s.procs i, e with
  | none, .starts c pid => some (s.put i (c.begin pid))
  | some p, .succeeds => s.succeed i p
  | some p, .fails errno n => s.fail strerror i p errno n
  | some p, .forks child pid =>
    if p.place = .forking ∧ s.procs child = none then
      some ((s.put i { p with place := .waiting, child := some child }).put child
        { p with pid := pid, place := .locking })
    else none
  | some p, .moves n => s.transfer i p n
  | some p, .killed => if p.place.gone then none else some (s.quit i p .killed)
  | _, _ => none

end System

end PgRouter.Daemon
