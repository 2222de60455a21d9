import PgRouter.Daemon.Effects
import Mathlib.Data.Finset.Card
import Mathlib.Tactic.Common

/-!
# One router for a pidfile

The lock on the pidfile is to keep a second router from running. It is a lock on a file, though, and not on a name: a
router that fails behind its lock removes the name, and another one that has the file open already can lock it when the
first one has gone, while a third one makes a new file under the name and locks that.

## What is proved

That is all that can go wrong (`guarded_le`): in every run, whoever is started and killed when, there are no more
routers behind the lock for a name than one, and one more for each time that the name has been removed. Each of those
has a file of its own locked (`Locked`), and the files that have been opened under the name are no more than that
(`Bound`).
-/

namespace PgRouter.Daemon

open Foundation Text Wire

universe u v

variable {ν : Type u} {ι : Type v}

/-- The places behind the lock, up to the end of `daemonize` and beyond, if nothing fails. -/
def Place.guarded : Place → Bool
  | .leaving | .writing | .owning | .grouping | .switching | .closing | .serving => true
  | _ => false

/-- The places behind `open`, if nothing fails. -/
def Place.opened : Place → Bool
  | .lookingUpUser | .lookingUpGroup | .changing | .piping | .forking | .locking => true
  | x => x.guarded

/-- There are no processes and no locks, and no names of files that there are not. -/
structure System.Initial (s : System ν ι) : Prop where
  /-- No process has been started. -/
  procs : ∀ i, s.procs i = none
  /-- No file is locked. -/
  lock : ∀ f, s.files.lock f = none
  /-- A name stands for a file that has been made. -/
  entry : ∀ n f, s.files.entry n = some f → f < s.files.made

/-! ### The processes after a step -/

variable {s s' : System ν ι} {i j : ι} {p q : Proc ν ι} {f : ℕ} {n : ν}

/-- What is started and opened stays so, if the process goes on. -/
theorem Proc.Goes.kept (h : p.Goes q) : q.start = p.start ∧ q.fd = p.fd ∧ q.pid = p.pid ∧ q.child = p.child := by
  cases h <;> exact ⟨rfl, rfl, rfl, rfl⟩

/-- Nobody gets behind the lock without it, if there is a pidfile. -/
theorem Proc.Goes.guarded (h : p.Goes q) (hq : q.place.guarded) : p.place.guarded ∨ p.fd = none := by
  cases h with
  | unnamed => cases hq
  | on hplace =>
    simp only [PLAIN, List.mem_cons, Prod.mk.injEq, List.not_mem_nil, or_false] at hplace
    rcases hplace with ⟨hp, rfl⟩ | ⟨hp, rfl⟩ | ⟨hp, rfl⟩ | ⟨hp, rfl⟩ | ⟨hp, rfl⟩ | ⟨hp, rfl⟩
    iterate 5 cases hq
    exact .inl (by rw [hp]; rfl)
  | unlocked hplace hfd => exact .inr hfd
  | left hplace | unwritten hplace | same hplace | grouped hplace | stays hplace | switched hplace =>
    exact .inl (by rw [hplace]; rfl)
  | prints | misreads => cases hq
  | tells hplace =>
    simp only [TELLING, List.mem_cons, Prod.mk.injEq, List.not_mem_nil, or_false] at hplace
    rcases hplace with ⟨-, rfl⟩ | ⟨-, rfl⟩ | ⟨-, rfl⟩ | ⟨-, rfl⟩ | ⟨-, rfl⟩ <;> cases hq

theorem Place.opened_of_guarded {x : Place} (h : x.guarded) : x.opened := by
  cases x <;> first | rfl | cases h

/-- Nobody gets behind `open` without a file, if there is a pidfile. -/
theorem Proc.Goes.opened (h : p.Goes q) (hq : q.place.opened) : p.place.opened ∨ p.start.pidfile = none := by
  cases h with
  | unnamed hplace hfile => exact .inr hfile
  | on hplace =>
    simp only [PLAIN, List.mem_cons, Prod.mk.injEq, List.not_mem_nil, or_false] at hplace
    rcases hplace with ⟨hp, rfl⟩ | ⟨hp, rfl⟩ | ⟨hp, rfl⟩ | ⟨hp, rfl⟩ | ⟨hp, rfl⟩ | ⟨hp, rfl⟩
    iterate 4 exact .inl (by rw [hp]; rfl)
    · cases hq
    · exact .inl (by rw [hp]; rfl)
  | unlocked hplace | left hplace | unwritten hplace | same hplace | grouped hplace | stays hplace | switched hplace =>
    exact .inl (by rw [hplace]; rfl)
  | prints | misreads => cases hq
  | tells hplace =>
    simp only [TELLING, List.mem_cons, Prod.mk.injEq, List.not_mem_nil, or_false] at hplace
    rcases hplace with ⟨-, rfl⟩ | ⟨-, rfl⟩ | ⟨-, rfl⟩ | ⟨-, rfl⟩ | ⟨-, rfl⟩ <;> cases hq

/-! ### The locks -/

/-- Who is behind the lock has it, and who is behind `open` has a file. -/
structure Locked (s : System ν ι) : Prop where
  /-- The lock on the pidfile is that of the process. -/
  lock : ∀ j p f, s.procs j = some p → p.place.guarded → p.fd = some f → s.files.lock f = some j
  /-- A pidfile is open. -/
  file : ∀ j p, s.procs j = some p → p.place.opened → p.start.pidfile.isSome → p.fd.isSome

/-- There is nobody yet. -/
theorem System.Initial.ne_some (h : s.Initial) : s.procs i ≠ some p := by
  rw [h.procs]
  exact (Option.some_ne_none p).symm

theorem System.Initial.locked (h : s.Initial) : Locked s :=
  ⟨fun _ _ _ hp => absurd hp h.ne_some, fun _ _ hp => absurd hp h.ne_some⟩

/-- The process is behind the lock, with a pidfile that it has opened under the name `n`. -/
def System.Guarded (s : System ν ι) (n : ν) (j : ι) : Prop :=
  ∃ p file, s.procs j = some p ∧ p.place.guarded ∧ p.start.pidfile = some file ∧ file.opened = n

/-- Who is behind the lock has a file open. -/
theorem Locked.fd (h : Locked s) (hj : s.Guarded n j) :
    ∃ p file f, s.procs j = some p ∧ p.place.guarded ∧ p.start.pidfile = some file ∧ file.opened = n ∧
      p.fd = some f ∧ s.files.lock f = some j := by
  obtain ⟨p, file, hp, hguarded, hfile, hn⟩ := hj
  obtain ⟨f, hf⟩ := Option.isSome_iff_exists.mp
    (h.file j p hp (Place.opened_of_guarded hguarded) (Option.isSome_of_mem hfile))
  exact ⟨p, file, f, hp, hguarded, hfile, hn, hf, h.lock j p f hp hguarded hf⟩

/-! ### The files of a name -/

/-- The files that have been opened under the name `n` are among `fs`, and these are at most one more than `k`, or at
most `k` if the name stands for none. -/
structure Bound (n : ν) (k : ℕ) (fs : Finset ℕ) (s : System ν ι) : Prop where
  /-- A process has opened one of them. -/
  opened : ∀ j p file f, s.procs j = some p → p.start.pidfile = some file → file.opened = n → p.fd = some f → f ∈ fs
  /-- The name stands for one of them. -/
  entry : ∀ f, s.files.entry n = some f → f ∈ fs
  /-- There are not more. -/
  card : fs.card + (if s.files.entry n = none then 1 else 0) ≤ k + 1

theorem System.Initial.bound (h : s.Initial) (n : ν) : ∃ fs, Bound n 0 fs s := by
  cases hentry : s.files.entry n with
  | none =>
    refine ⟨∅, fun j p file f hp => absurd hp h.ne_some, fun f hf => ?_, ?_⟩
    · rw [hentry] at hf
      cases hf
    · rw [if_pos hentry]
      exact le_rfl
  | some g =>
    refine ⟨{g}, fun j p file f hp => absurd hp h.ne_some, fun f hf => ?_, ?_⟩
    · rw [hentry] at hf
      exact Finset.mem_singleton.mpr (Option.some.inj hf).symm
    · rw [if_neg (by rw [hentry]; exact Option.some_ne_none g)]
      exact le_rfl

variable {k : ℕ} {fs : Finset ℕ}

/-- A process that has opened what it had opened before. -/
theorem Bound.kept (h : Bound n k fs s) (hp : s.procs i = some p) (hstart : q.start = p.start) (hfd : q.fd = p.fd)
    (file : Pidfile ν) (f : ℕ) (hfile : q.start.pidfile = some file) (hn : file.opened = n) (hf : q.fd = some f) :
    f ∈ fs :=
  h.opened i p file f hp (hstart ▸ hfile) hn (hfd ▸ hf)

/-! ### Runs -/

variable [DecidableEq ν] [DecidableEq ι]

/-- A run from `s` gets to this state, and the name `n` has been removed `k` times on the way. -/
inductive Reaches (strerror : ℕ → CString) (n : ν) (s : System ν ι) : ℕ → System ν ι → Prop
  /-- The beginning. -/
  | refl : Reaches strerror n s 0 s
  /-- One more step. -/
  | step {k : ℕ} {t t' : System ν ι} {i : ι} {e : Event ν ι} (h : Reaches strerror n s k t)
      (hstep : t.step strerror i e = some t') :
      Reaches strerror n s (if (t.files.entry n).isSome ∧ t'.files.entry n = none then k + 1 else k) t'

/-- What every step keeps holds at the end of a run. -/
theorem Reaches.induction {strerror : ℕ → CString} {n : ν} {s t : System ν ι} {k : ℕ} {P : System ν ι → Prop}
    (hkeep : ∀ t t' i, P t → Effect t i t' → P t') (hs : P s) (h : Reaches strerror n s k t) : P t := by
  induction h with
  | refl => exact hs
  | step _ hstep ih => exact hkeep _ _ _ ih (System.step_effect hstep)

omit [DecidableEq ν] in
/-- Processes of which none gets behind the lock or behind `open` with the step, and a lock that stays with each of
the others. -/
theorem Locked.put (h : Locked s) {fs : Files ν ι (ℕ × ℕ) Octet}
    (hothers : ∀ j f, j ≠ i → s.files.lock f = some j → fs.lock f = some j)
    (hlock : q.place.guarded → ∀ f, q.fd = some f → fs.lock f = some i)
    (hfile : q.place.opened → q.start.pidfile.isSome → q.fd.isSome) : Locked ((s.withFiles fs).put i q) := by
  constructor
  · intro j p f hp hguarded hfd
    obtain ⟨rfl, rfl⟩ | ⟨hne, hp⟩ := System.put_procs hp
    · exact hlock hguarded f hfd
    · exact hothers j f hne (h.lock j p f hp hguarded hfd)
  · intro j p hp hopened hpid
    obtain ⟨rfl, rfl⟩ | ⟨-, hp⟩ := System.put_procs hp
    · exact hfile hopened hpid
    · exact h.file j p hp hopened hpid

omit [DecidableEq ν] in
/-- A process that ends. -/
theorem Locked.quit (h : Locked s) {x : Place} (hx : x.gone) : Locked (s.quit i p x) := by
  refine h.put (fun j f hne hlock => Files.release_lock hlock hne) (fun hguarded => ?_) fun hopened => ?_
  · cases x <;> first | exact absurd hguarded Bool.false_ne_true | exact absurd hx Bool.false_ne_true
  · cases x <;> first | exact absurd hopened Bool.false_ne_true | exact absurd hx Bool.false_ne_true

theorem Locked.effect (h : Locked s) (he : Effect s i s') : Locked s' := by
  have hsame : ∀ j f, j ≠ i → s.files.lock f = some j → s.files.lock f = some j := fun _ _ _ hlock => hlock
  cases he with
  | starts hnew =>
    exact h.put hsame (fun hguarded => by cases hguarded) fun hopened => by cases hopened
  | goes hp hgoes =>
    obtain ⟨hstart, hfd, -, -⟩ := hgoes.kept
    refine h.put hsame (fun hguarded f hf => ?_) fun hopened hpid => ?_
    · rw [hfd] at hf
      rcases hgoes.guarded hguarded with hwas | hnone
      · exact h.lock i _ f hp hwas hf
      · rw [hnone] at hf
        cases hf
    · rw [hstart] at hpid
      rw [hfd]
      rcases hgoes.opened hopened with hwas | hnone
      · exact h.file i _ hp hwas hpid
      · rw [hnone] at hpid
        cases hpid
  | opens hp hplace hfile =>
    refine h.put (fun j f _ hlock => ?_) (fun hguarded => by cases hguarded) fun _ _ => rfl
    rw [Files.create_lock]
    exact hlock
  | @forks p child pid hp hplace hnew =>
    have hparent : Locked (s.put i { p with place := .waiting, child := some child }) :=
      h.put hsame (fun hguarded => by cases hguarded) fun hopened => by cases hopened
    refine hparent.put (fun _ _ _ hlock => hlock) (fun hguarded => by cases hguarded) fun _ hpid => ?_
    exact h.file i p hp (by rw [hplace]; rfl) hpid
  | locks hp hplace hfd hlock =>
    obtain ⟨hfree, rfl⟩ := Files.setlk_some hlock
    refine h.put (fun j g hne hg => ?_) (fun _ g hg => ?_) fun _ _ => Option.isSome_of_mem hfd
    · change Function.update s.files.lock _ (some i) g = some j
      rw [Function.update_of_ne, hg]
      rintro rfl
      rcases hfree with hfree | hfree
      · exact absurd (hg.symm.trans hfree) (by simp)
      · exact hne (Option.some.inj (hg.symm.trans hfree))
    · obtain rfl : _ = g := Option.some.inj (hfd.symm.trans hg)
      exact Function.update_self _ _ _
  | writes hp hplace hfd =>
    exact h.put hsame (fun _ g hg => h.lock i _ g hp (by rw [hplace]; rfl) hg) fun _ _ => Option.isSome_of_mem hfd
  | owns hp hplace hfd =>
    exact h.put hsame (fun _ g hg => h.lock i _ g hp (by rw [hplace]; rfl) hg) fun _ _ => Option.isSome_of_mem hfd
  | removes hp hplace hfile hentry =>
    exact h.put hsame (fun hguarded => by cases hguarded) fun hopened => by cases hopened
  | @hears p q child n hp hplace hchild hq hlen =>
    refine h.put hsame (fun hguarded => ?_) fun hopened => ?_
    · simp only at hguarded
      split_ifs at hguarded <;> cases hguarded
    · simp only at hopened
      split_ifs at hopened <;> cases hopened
  | leaves => exact h.quit rfl
  | exits => exact h.quit rfl
  | dies => exact h.quit rfl

omit [DecidableEq ν] in
/-- A process that opens nothing, while the names stay. -/
theorem Bound.put (h : Bound n k fs s) {files : Files ν ι (ℕ × ℕ) Octet} (hentry : files.entry n = s.files.entry n)
    (hq : ∀ file f, q.start.pidfile = some file → file.opened = n → q.fd = some f → f ∈ fs) :
    Bound n k fs ((s.withFiles files).put i q) := by
  refine ⟨fun j p file f hp hfile hn hfd => ?_, fun f hf => h.entry f (hentry ▸ hf), ?_⟩
  · obtain ⟨rfl, rfl⟩ | ⟨-, hp⟩ := System.put_procs hp
    · exact hq file f hfile hn hfd
    · exact h.opened j p file f hp hfile hn hfd
  · rw [System.put_files, System.withFiles_files, hentry]
    exact h.card

/-- A step opens a file that the name stands for, or makes one where it stands for none. -/
theorem Bound.opens (h : Bound n k fs s) {file : Pidfile ν} {o : ℕ × ℕ} (hfile : p.start.pidfile = some file) :
    ∃ fs', Bound n k fs' ((s.withFiles (s.files.create file.opened o).2).put i
      { p with place := .lookingUpUser, fd := some (s.files.create file.opened o).1 }) := by
  obtain ⟨f, hentry, hcreate⟩ | ⟨hentry, hnew, hentries⟩ := Files.create_cases s.files file.opened o
  · rw [hcreate]
    refine ⟨fs, h.put rfl fun file' g hfile' hn hg => ?_⟩
    obtain rfl : file = file' := Option.some.inj (hfile.symm.trans hfile')
    obtain rfl : f = g := Option.some.inj hg
    exact h.entry f (hn ▸ hentry)
  · by_cases hn : file.opened = n
    · refine ⟨insert s.files.made fs, fun j q file' g hq hfile' hn' hg => ?_, fun g hg => ?_, ?_⟩
      · obtain ⟨rfl, rfl⟩ | ⟨-, hq⟩ := System.put_procs hq
        · obtain rfl : s.files.made = g := hnew ▸ Option.some.inj hg
          exact Finset.mem_insert_self _ _
        · exact Finset.mem_insert_of_mem (h.opened j q file' g hq hfile' hn' hg)
      · rw [System.put_files, System.withFiles_files, hentries, hn, Function.update_self] at hg
        exact Option.some.inj hg ▸ Finset.mem_insert_self _ _
      · have hcard := h.card
        rw [if_pos (hn ▸ hentry)] at hcard
        rw [System.put_files, System.withFiles_files, hentries, hn, Function.update_self,
          if_neg (Option.some_ne_none _)]
        exact (Finset.card_insert_le _ _).trans hcard
    · refine ⟨fs, h.put (by rw [hentries, Function.update_of_ne (Ne.symm hn)]) fun file' g hfile' hn' _ => ?_⟩
      obtain rfl : file = file' := Option.some.inj (hfile.symm.trans hfile')
      exact absurd hn' hn

/-- A step counts if it removes the name. -/
theorem Bound.effect (h : Bound n k fs s) (he : Effect s i s') :
    ∃ fs', Bound n (if (s.files.entry n).isSome ∧ s'.files.entry n = none then k + 1 else k) fs' s' := by
  have hstays : ∀ {t : System ν ι}, t.files.entry n = s.files.entry n →
      (if (s.files.entry n).isSome ∧ t.files.entry n = none then k + 1 else k) = k := by
    intro t ht
    refine if_neg fun hremoved => ?_
    rw [← ht, hremoved.2] at hremoved
    cases hremoved.1
  cases he with
  | starts hnew => exact ⟨fs, (hstays rfl).symm ▸ h.put rfl fun _ _ _ _ hf => by cases hf⟩
  | goes hp hgoes =>
    obtain ⟨hstart, hfd, -, -⟩ := hgoes.kept
    exact ⟨fs, (hstays rfl).symm ▸ h.put rfl (h.kept hp hstart hfd)⟩
  | @opens p file o hp hplace hfile =>
    obtain ⟨fs', hopens⟩ := h.opens (i := i) (o := o) hfile
    refine ⟨fs', ?_⟩
    rw [if_neg]
    · exact hopens
    · rintro ⟨hsome, hnone⟩
      rw [System.put_files, System.withFiles_files] at hnone
      obtain ⟨f, -, hcreate⟩ | ⟨-, -, hentries⟩ := Files.create_cases s.files file.opened o
      · rw [hcreate] at hnone
        rw [hnone] at hsome
        cases hsome
      · rw [hentries] at hnone
        by_cases hn : n = file.opened
        · rw [hn, Function.update_self] at hnone
          cases hnone
        · rw [Function.update_of_ne hn] at hnone
          rw [hnone] at hsome
          cases hsome
  | @forks p child pid hp hplace hnew =>
    have hparent : Bound n k fs (s.put i { p with place := .waiting, child := some child }) :=
      h.put rfl (h.kept hp rfl rfl)
    refine ⟨fs, (hstays rfl).symm ▸ hparent.put rfl fun file f hfile hn hf => ?_⟩
    exact h.opened i p file f hp hfile hn hf
  | locks hp hplace hfd hlock =>
    obtain ⟨-, rfl⟩ := Files.setlk_some hlock
    exact ⟨fs, (hstays rfl).symm ▸ h.put rfl (h.kept hp rfl rfl)⟩
  | writes hp hplace hfd => exact ⟨fs, (hstays rfl).symm ▸ h.put rfl (h.kept hp rfl rfl)⟩
  | owns hp hplace hfd => exact ⟨fs, (hstays rfl).symm ▸ h.put rfl (h.kept hp rfl rfl)⟩
  | @removes p file hp hplace hfile hentry =>
    by_cases hn : n = file.removed
    · refine ⟨fs, fun j q file' f hq hfile' hn' hf => ?_, fun f hf => ?_, ?_⟩
      · obtain ⟨rfl, rfl⟩ | ⟨-, hq⟩ := System.put_procs hq
        · exact h.kept hp rfl rfl file' f hfile' hn' hf
        · exact h.opened j q file' f hq hfile' hn' hf
      · rw [System.put_files, System.withFiles_files, hn, Files.unlink_self] at hf
        cases hf
      · have hgone : (s.files.unlink file.removed).entry n = none := hn ▸ Files.unlink_self s.files n
        have hcard := h.card
        rw [if_neg (Option.isSome_iff_ne_none.mp (hn ▸ hentry))] at hcard
        rw [System.put_files, System.withFiles_files, if_pos hgone, if_pos ⟨hn ▸ hentry, hgone⟩]
        exact Nat.succ_le_succ hcard
    · have hother : (s.files.unlink file.removed).entry n = s.files.entry n := Files.unlink_of_ne hn
      rw [hstays hother]
      exact ⟨fs, h.put hother (h.kept hp rfl rfl)⟩
  | hears hp hplace hchild hq hlen => exact ⟨fs, (hstays rfl).symm ▸ h.put rfl (h.kept hp rfl rfl)⟩
  | leaves hp hplace hchild hq hclosed heard => exact ⟨fs, (hstays rfl).symm ▸ h.put rfl (h.kept hp rfl rfl)⟩
  | exits hp hplace => exact ⟨fs, (hstays rfl).symm ▸ h.put rfl (h.kept hp rfl rfl)⟩
  | dies hp hthere => exact ⟨fs, (hstays rfl).symm ▸ h.put rfl (h.kept hp rfl rfl)⟩

/-- It is so in every run. -/
theorem Reaches.bound {strerror : ℕ → CString} {s t : System ν ι} (hs : s.Initial) (h : Reaches strerror n s k t) :
    ∃ fs, Bound n k fs t := by
  induction h with
  | refl => exact hs.bound n
  | step _ hstep ih =>
    obtain ⟨fs, hfs⟩ := ih
    exact hfs.effect (System.step_effect hstep)

theorem Reaches.locked {strerror : ℕ → CString} {s t : System ν ι} (hs : s.Initial) (h : Reaches strerror n s k t) :
    Locked t :=
  h.induction (fun _ _ _ => Locked.effect) hs.locked

/-- **There are no more routers behind the lock for a name than one, and one more for each time that the name has been
removed**, whoever is started and killed when. -/
theorem guarded_le {strerror : ℕ → CString} {s t : System ν ι} (hs : s.Initial) (h : Reaches strerror n s k t)
    (js : Finset ι) (hjs : ∀ j ∈ js, t.Guarded n j) : js.card ≤ k + 1 := by
  obtain ⟨fs, hfs⟩ := h.bound hs
  have hlocked := h.locked hs
  have hfile : ∀ j ∈ js, ∃ f ∈ fs, t.files.lock f = some j := by
    intro j hj
    obtain ⟨p, file, f, hp, -, hfile, hn, hf, hlock⟩ := hlocked.fd (hjs j hj)
    exact ⟨f, hfs.opened j p file f hp hfile hn hf, hlock⟩
  choose! file hmem hlock using hfile
  have hinj : Set.InjOn file js := by
    intro j hj j' hj' heq
    exact Option.some.inj ((hlock j hj).symm.trans (heq ▸ hlock j' hj'))
  calc js.card
    _ ≤ fs.card := Finset.card_le_card_of_injOn file hmem hinj
    _ ≤ fs.card + (if t.files.entry n = none then 1 else 0) := Nat.le_add_right _ _
    _ ≤ k + 1 := hfs.card

/-! ### Two routers -/

/-- The steps of a run one after the other, and how often the name `n` is removed in them. -/
def System.run (strerror : ℕ → CString) (n : ν) : List (ι × Event ν ι) → ℕ × System ν ι → Option (ℕ × System ν ι)
  | [], x => some x
  | (i, e) :: events, (k, s) => (s.step strerror i e).bind fun s' =>
      run strerror n events (if (s.files.entry n).isSome ∧ s'.files.entry n = none then k + 1 else k, s')

/-- So a run gets there. -/
theorem Reaches.run {strerror : ℕ → CString} {s t t' : System ν ι} {k' : ℕ} (h : Reaches strerror n s k t)
    {events : List (ι × Event ν ι)} (hrun : System.run strerror n events (k, t) = some (k', t')) :
    Reaches strerror n s k' t' := by
  induction events generalizing k t with
  | nil =>
    obtain ⟨rfl, rfl⟩ := Prod.mk.inj (Option.some.inj hrun)
    exact h
  | cons event events ih =>
    obtain ⟨u, hstep, hrest⟩ := Option.bind_eq_some_iff.mp hrun
    exact ih (h.step hstep) hrest

/-- A router that `root` starts. -/
def rootStart : Start Unit := ⟨some ⟨octets "p", (), ()⟩, [], [], 5, 5, .all 0, .all 0⟩

/-- No processes, and no pidfile. -/
def nobody : System Unit ℕ := ⟨⟨fun _ => none, 0, fun _ => [], fun _ => (0, 0), fun _ => none⟩, fun _ => none⟩

theorem nobody_initial : nobody.Initial := ⟨fun _ => rfl, fun _ => rfl, fun _ _ h => by cases h⟩

/-- The steps of a parent, up to its child `i + 1`, which has the number `i + 2`. -/
def parentEvents (i : ℕ) : List (ℕ × Event Unit ℕ) :=
  (i, .starts rootStart (i + 1)) :: List.replicate 5 (i, .succeeds) ++ [(i, .forks (i + 1) (i + 2))]

/-- The steps of a child `i`. -/
def childEvents (i : ℕ) : List (ℕ × Event Unit ℕ) :=
  [(i, .succeeds), (i, .succeeds), (i, .moves 2), (i, .succeeds), (i, .succeeds), (i, .succeeds), (i, .succeeds)]

/-- The child `1` fails when the child `3` has opened its file. -/
def raceEvents : List (ℕ × Event Unit ℕ) :=
  parentEvents 0 ++ parentEvents 2 ++
    [(1, .succeeds), (1, .succeeds), (1, .moves 2), (1, .fails 1 0), (1, .succeeds), (1, .succeeds)] ++
    childEvents 3 ++ parentEvents 4 ++ childEvents 5

theorem guarded_le_race :
    ∃ t, Reaches (fun _ => []) () nobody 1 t ∧ (∀ j ∈ ({3, 5} : Finset ℕ), t.Guarded () j) ∧
      ({3, 5} : Finset ℕ).card ≤ 1 + 1 := by
  have hrun : (System.run (fun _ => []) () raceEvents (0, nobody)).map (fun x =>
      (x.1, [3, 5].map fun j => (x.2.procs j).map fun p => (p.place, p.start.pidfile.isSome))) =
      some (1, [some (.serving, true), some (.serving, true)]) := by decide +kernel
  obtain ⟨⟨k, t⟩, ht, hx⟩ := Option.map_eq_some_iff.mp hrun
  simp only [List.map_cons, List.map_nil, Prod.mk.injEq, List.cons.injEq, and_true, Option.map_eq_some_iff] at hx
  obtain ⟨rfl, ⟨p, hp, hserves, hpid⟩, ⟨q, hq, hserves', hpid'⟩⟩ := hx
  have hreaches := Reaches.refl.run ht
  have hguarded : ∀ j ∈ ({3, 5} : Finset ℕ), t.Guarded () j := by
    intro j hj
    obtain ⟨file, hfile⟩ := Option.isSome_iff_exists.mp hpid
    obtain ⟨file', hfile'⟩ := Option.isSome_iff_exists.mp hpid'
    rcases Finset.mem_insert.mp hj with rfl | hj
    · exact ⟨p, file, hp, by rw [hserves]; rfl, hfile, rfl⟩
    · obtain rfl := Finset.mem_singleton.mp hj
      exact ⟨q, file', hq, by rw [hserves']; rfl, hfile', rfl⟩
  exact ⟨t, hreaches, hguarded, guarded_le nobody_initial hreaches _ hguarded⟩

end PgRouter.Daemon
