import Mathlib.Data.List.TakeWhile
import Mathlib.Data.Nat.Digits.Lemmas
import PgRouter.Daemon.Exclusion

/-!
# What a router leaves in its pidfile

A router behind its lock writes its number at the beginning of the pidfile, where the number of an earlier router may be
in the way: the file is not truncated, and a number of seven figures has no newline behind it. If it has been started
by `root`, the router gives the file to the user whom it is to run as, and becomes that user.

## What is proved

As long as the name of the pidfile is not removed, the router behind the lock, of which there is one, is the one whose
number is read from the file of that name (`pidfile_reads`). Whoever serves and has been started by `root` is the
user and the group that it is to be, and cannot go back, and so is the owner of its pidfile (`rights_given_up`).
-/

namespace PgRouter.Daemon

open Foundation Text Wire

universe u v

variable {ν : Type u} {ι : Type v} {s s' : System ν ι} {i j : ι} {p q : Proc ν ι} {f : ℕ} {n : ν}

/-! ### Numbers that are written and read -/

/-- A number is read where nothing follows. -/
theorem readNat_decimal (n : ℕ) : Monitor.readNat (Monitor.decimal n) = some (n, []) := by
  have hdigits : ∀ c ∈ Monitor.decimal n, isdigit c = true := by
    intro c hc
    obtain ⟨d, hd, rfl⟩ := List.mem_map.mp hc
    exact (Monitor.figure_digit (figures_lt hd)).2
  have hfigures : (Monitor.decimal n).map Monitor.figure = figures n := by
    rw [Monitor.decimal, List.map_map]
    exact (List.map_congr_left fun d hd => (Monitor.figure_digit (figures_lt hd)).1).trans (List.map_id _)
  change some (numeral 10 (((Monitor.decimal n).takeWhile isdigit).map Monitor.figure),
    (Monitor.decimal n).dropWhile isdigit) = _
  rw [List.takeWhile_eq_self_iff.mpr hdigits, List.dropWhile_eq_nil_iff.mpr hdigits, hfigures, numeral_figures]

theorem length_decimal_le {n : ℕ} (h : n < 10 ^ 7) : (Monitor.decimal n).length ≤ 7 := by
  rw [Monitor.decimal, List.length_map, figures]
  split_ifs with hzero
  · decide
  · rw [List.length_reverse]
    exact (Nat.digits_length_le_iff (by decide) n).mpr h

theorem length_pidLine_le (pid : ℕ) : (pidLine pid).length ≤ 7 := List.length_take_le _ _

/-- The number is read from a short file that begins with it. -/
theorem readNat_pidLine {pid : ℕ} {c : List Octet} (hpid : pid < 10 ^ 7) (hlen : c.length ≤ 7) (h : pidLine pid <+: c) :
    ∃ rest, Monitor.readNat c = some (pid, rest) := by
  have hformat : Monitor.formatD pid = Monitor.decimal pid := if_neg (by omega)
  have hdecimal := length_decimal_le hpid
  rw [pidLine, hformat] at h
  by_cases hsix : (Monitor.decimal pid).length ≤ 6
  · rw [List.take_of_length_le (by rw [List.length_append]; exact Nat.add_le_add_right hsix 1)] at h
    obtain ⟨rest, rfl⟩ := h
    rw [List.append_assoc]
    exact ⟨_, Monitor.readNat_recovers rfl⟩
  · have hseven : (Monitor.decimal pid).length = 7 := by omega
    rw [List.take_append_of_le_length hseven.ge, List.take_of_length_le hdecimal] at h
    rw [← h.eq_of_length_le (hseven ▸ hlen)]
    exact ⟨_, readNat_decimal pid⟩

/-! ### The rights of a process -/

/-- The process is started by `root`, and its real, effective and saved group are one. -/
def Proc.ByRoot (p : Proc ν ι) : Prop := p.start.uid = .all 0 ∧ p.start.gid = .all p.start.gid.real

/-- The user and the group that a process is, when it has been started by `root`. -/
def Proc.Rights (p : Proc ν ι) : Prop :=
  match p.place with
  | .switching => p.uid = .all 0 ∧ p.gid = .all p.start.grGid
  | .closing | .serving => p.uid = .all p.start.pwUid ∧ p.gid = .all p.start.grGid
  | .removing | .exiting | .exited _ | .killed | .overrun | .underrun => True
  | _ => p.uid = .all 0 ∧ p.gid = p.start.gid

/-- The places where the user and the group are still those of the start. -/
def Place.first : Place → Bool
  | .switching | .closing | .serving | .removing | .exiting | .exited _ | .killed | .overrun | .underrun => false
  | _ => true

theorem Proc.Rights.of_first (h : p.Rights) (hp : p.place.first) : p.uid = .all 0 ∧ p.gid = p.start.gid := by
  unfold Proc.Rights at h
  split at h <;> simp_all [Place.first]

theorem Proc.rights_of_first (hp : p.place.first) (h : p.uid = .all 0 ∧ p.gid = p.start.gid) : p.Rights := by
  unfold Proc.Rights
  split <;> simp_all [Place.first]

/-- `root` goes on behind the lock as `root`. -/
theorem Proc.Rights.settle (h : p.uid = .all 0) : p.settle = .grouping ∧ p.afterWriting = .owning := by
  have hreal : p.uid.real = 0 := by rw [h]; rfl
  exact ⟨if_pos hreal, if_pos hreal⟩

theorem Proc.Goes.rights (h : p.Goes q) (hroot : p.ByRoot) (hp : p.Rights) : q.Rights := by
  cases h with
  | unnamed hplace => exact rights_of_first rfl (hp.of_first (by rw [hplace]; rfl))
  | on hplace =>
    simp only [PLAIN, List.mem_cons, Prod.mk.injEq, List.not_mem_nil, or_false] at hplace
    rcases hplace with ⟨hx, rfl⟩ | ⟨hx, rfl⟩ | ⟨hx, rfl⟩ | ⟨hx, rfl⟩ | ⟨hx, rfl⟩ | ⟨hx, rfl⟩
    iterate 4 exact rights_of_first rfl (hp.of_first (by rw [hx]; rfl))
    · exact trivial
    · simpa only [Proc.Rights, hx] using hp
  | unlocked hplace => exact rights_of_first rfl (hp.of_first (by rw [hplace]; rfl))
  | left hplace =>
    have hfirst := hp.of_first (by rw [hplace]; rfl)
    refine rights_of_first ?_ hfirst
    simp only [(Proc.Rights.settle hfirst.1).1]
    split_ifs <;> rfl
  | unwritten hplace =>
    have hfirst := hp.of_first (by rw [hplace]; rfl)
    refine rights_of_first ?_ hfirst
    simp only [(Proc.Rights.settle hfirst.1).2]
    rfl
  | same hplace hgid =>
    obtain ⟨huid, hgroup⟩ := hp.of_first (by rw [hplace]; rfl)
    refine ⟨huid, ?_⟩
    rw [hgid, hgroup]
    exact hroot.2
  | grouped hplace hgid =>
    obtain ⟨huid, -⟩ := hp.of_first (by rw [hplace]; rfl)
    refine ⟨huid, ?_⟩
    rw [huid] at hgid
    exact (Option.some.inj hgid).symm
  | stays hplace huid =>
    simp only [Proc.Rights, hplace] at hp
    refine ⟨?_, hp.2⟩
    rw [huid, hp.1]
    rfl
  | switched hplace huid =>
    simp only [Proc.Rights, hplace] at hp
    refine ⟨?_, hp.2⟩
    rw [hp.1] at huid
    exact (Option.some.inj huid).symm
  | prints | misreads => exact trivial
  | tells hplace =>
    simp only [TELLING, List.mem_cons, Prod.mk.injEq, List.not_mem_nil, or_false] at hplace
    rcases hplace with ⟨-, rfl⟩ | ⟨-, rfl⟩ | ⟨-, rfl⟩ | ⟨-, rfl⟩ | ⟨-, rfl⟩ <;> exact trivial

/-! ### The pidfiles -/

/-- The places before the number has been written. -/
def Place.unwritten : Place → Bool
  | .opening | .lookingUpUser | .lookingUpGroup | .changing | .piping | .forking | .waiting | .locking | .leaving
  | .writing => true
  | _ => false

/-- The places of a router of `root` behind `fchown`, if nothing fails. -/
def Place.owned : Place → Bool
  | .grouping | .switching | .closing | .serving => true
  | _ => false

/-- What a process behind the lock can say of its pidfile `f`. -/
structure Proc.Kept (p : Proc ν ι) (fs : Files ν ι (ℕ × ℕ) Octet) (f : ℕ) : Prop where
  /-- Its number is there. -/
  line : p.place.guarded → p.wrote → pidLine p.pid <+: fs.content f
  /-- It belongs to the user. -/
  owner : p.place.owned → p.ByRoot → fs.owner f = (p.start.pwUid, p.start.grGid)

/-- What is in the files, which are no longer than `len` says or than a number, and to whom they belong. -/
structure Written (len : ℕ → ℕ) (s : System ν ι) : Prop where
  /-- No more than a number is written to them. -/
  short : ∀ f, (s.files.content f).length ≤ max 7 (len f)
  /-- They have been made. -/
  made : ∀ j p f, s.procs j = some p → p.fd = some f → f < s.files.made
  /-- So have those that names stand for. -/
  entry : ∀ n f, s.files.entry n = some f → f < s.files.made
  /-- A number is not written twice. -/
  unwritten : ∀ j p, s.procs j = some p → p.place.unwritten → p.wrote = false
  /-- What a router of `root` is. -/
  rights : ∀ j p, s.procs j = some p → p.ByRoot → p.Rights
  /-- The pidfile of each. -/
  kept : ∀ j p f, s.procs j = some p → p.fd = some f → p.Kept s.files f

variable {len : ℕ → ℕ}

theorem System.Initial.written (h : s.Initial) (hshort : ∀ f, (s.files.content f).length ≤ len f) : Written len s :=
  ⟨fun f => (hshort f).trans (le_max_right _ _), fun _ _ _ hp => absurd hp h.ne_some, h.entry,
    fun _ _ hp => absurd hp h.ne_some, fun _ _ hp => absurd hp h.ne_some, fun _ _ _ hp => absurd hp h.ne_some⟩

/-- Who is behind `fchown` is behind the lock. -/
theorem Place.guarded_of_owned {x : Place} (h : x.owned) : x.guarded := by
  cases x <;> first | rfl | exact absurd h Bool.false_ne_true

/-- With the same file, and behind the lock no sooner, a process can say the same of it. -/
theorem Proc.Kept.of_same {fs : Files ν ι (ℕ × ℕ) Octet} (h : p.Kept fs f) (hstart : q.start = p.start)
    (hpid : q.pid = p.pid) (hwrote : q.wrote = p.wrote) (hguarded : q.place.guarded → q.wrote → p.place.guarded)
    (howned : q.place.owned → q.ByRoot → p.place.owned) : q.Kept fs f := by
  refine ⟨fun hq hwritten => ?_, fun hq hroot => ?_⟩
  · rw [hpid]
    exact h.line (hguarded hq hwritten) (hwrote ▸ hwritten)
  · rw [hstart]
    exact h.owner (howned hq hroot) (by rw [Proc.ByRoot, hstart] at hroot; exact hroot)

/-- A place that is not behind the lock has nothing to say of a file. -/
theorem Proc.kept_of_not_guarded (fs : Files ν ι (ℕ × ℕ) Octet) (f : ℕ) (h : q.place.guarded = false) :
    q.Kept fs f := by
  refine ⟨fun hguarded => ?_, fun howned => ?_⟩
  · rw [h] at hguarded
    cases hguarded
  · have hguarded := Place.guarded_of_owned howned
    rw [h] at hguarded
    cases hguarded

/-- What goes on has not written, and does not get behind `fchown`, unless it was there. -/
theorem Proc.Goes.written (h : p.Goes q) (hrights : p.ByRoot → p.Rights) :
    q.wrote = p.wrote ∧ (q.place.unwritten → p.place.unwritten) ∧
      (q.place.owned → q.ByRoot → p.place.owned ∨ p.fd = none) := by
  have hfirst : p.place.first → p.ByRoot → p.uid = .all 0 := fun hp hroot => ((hrights hroot).of_first hp).1
  cases h with
  | unnamed hplace => exact ⟨rfl, fun _ => by rw [hplace]; rfl, fun h => absurd h Bool.false_ne_true⟩
  | on hplace =>
    simp only [PLAIN, List.mem_cons, Prod.mk.injEq, List.not_mem_nil, or_false] at hplace
    rcases hplace with ⟨hx, rfl⟩ | ⟨hx, rfl⟩ | ⟨hx, rfl⟩ | ⟨hx, rfl⟩ | ⟨hx, rfl⟩ | ⟨hx, rfl⟩
    iterate 4 exact ⟨rfl, fun _ => by rw [hx]; rfl, fun h => absurd h Bool.false_ne_true⟩
    · exact ⟨rfl, fun h => absurd h Bool.false_ne_true, fun h => absurd h Bool.false_ne_true⟩
    · exact ⟨rfl, fun h => absurd h Bool.false_ne_true, fun _ _ => .inl (by rw [hx]; rfl)⟩
  | unlocked hplace => exact ⟨rfl, fun _ => by rw [hplace]; rfl, fun h => absurd h Bool.false_ne_true⟩
  | left hplace =>
    refine ⟨rfl, fun _ => by rw [hplace]; rfl, fun howned _ => ?_⟩
    cases hfd : p.fd with
    | none => exact .inr rfl
    | some g =>
      simp only [hfd, Option.isSome_some, if_true] at howned
      cases howned
  | unwritten hplace =>
    refine ⟨rfl, fun _ => by rw [hplace]; rfl, fun howned hroot => ?_⟩
    simp only [(Proc.Rights.settle (hfirst (by rw [hplace]; rfl) hroot)).2] at howned
    cases howned
  | same hplace | grouped hplace | stays hplace | switched hplace =>
    exact ⟨rfl, fun h => absurd h Bool.false_ne_true, fun _ _ => .inl (by rw [hplace]; rfl)⟩
  | prints | misreads => exact ⟨rfl, fun h => absurd h Bool.false_ne_true, fun h => absurd h Bool.false_ne_true⟩
  | tells hplace =>
    simp only [TELLING, List.mem_cons, Prod.mk.injEq, List.not_mem_nil, or_false] at hplace
    rcases hplace with ⟨-, rfl⟩ | ⟨-, rfl⟩ | ⟨-, rfl⟩ | ⟨-, rfl⟩ | ⟨-, rfl⟩ <;>
      exact ⟨rfl, fun h => absurd h Bool.false_ne_true, fun h => absurd h Bool.false_ne_true⟩

variable [DecidableEq ι]

/-- One process has changed, and the files so that the others can say of theirs what they could. -/
theorem Written.put (h : Written len s) {fs : Files ν ι (ℕ × ℕ) Octet} (hmade : s.files.made ≤ fs.made)
    (hshort : ∀ f, (fs.content f).length ≤ max 7 (len f)) (hentry : ∀ n f, fs.entry n = some f → f < fs.made)
    (hothers : ∀ j p f, j ≠ i → s.procs j = some p → p.fd = some f → p.Kept s.files f → p.Kept fs f)
    (hfd : ∀ f, q.fd = some f → f < fs.made) (hunwritten : q.place.unwritten → q.wrote = false)
    (hrights : q.ByRoot → q.Rights) (hkept : ∀ f, q.fd = some f → q.Kept fs f) :
    Written len ((s.withFiles fs).put i q) where
  short := hshort
  entry := hentry
  made j p f hp hf := by
    obtain ⟨rfl, rfl⟩ | ⟨-, hp⟩ := System.put_procs hp
    · exact hfd f hf
    · exact (h.made j p f hp hf).trans_le hmade
  unwritten j p hp hplace := by
    obtain ⟨rfl, rfl⟩ | ⟨-, hp⟩ := System.put_procs hp
    · exact hunwritten hplace
    · exact h.unwritten j p hp hplace
  rights j p hp hroot := by
    obtain ⟨rfl, rfl⟩ | ⟨-, hp⟩ := System.put_procs hp
    · exact hrights hroot
    · exact h.rights j p hp hroot
  kept j p f hp hf := by
    obtain ⟨rfl, rfl⟩ | ⟨hne, hp⟩ := System.put_procs hp
    · exact hkept f hf
    · exact hothers j p f hne hp hf (h.kept j p f hp hf)

/-- A process that ends. -/
theorem Written.quit (h : Written len s) (hp : s.procs i = some p) {x : Place} (hx : x.gone) :
    Written len (s.quit i p x) := by
  have hplaces : x.unwritten = false ∧ x.guarded = false := by
    cases x <;> first | exact ⟨rfl, rfl⟩ | exact absurd hx Bool.false_ne_true
  refine h.put le_rfl h.short h.entry (fun _ _ _ _ _ _ hk => ⟨hk.line, hk.owner⟩) (fun f hf => h.made i p f hp hf)
    (fun hq => ?_) (fun _ => ?_) fun f _ => Proc.kept_of_not_guarded _ f hplaces.2
  · exact absurd (hplaces.1.symm.trans hq) Bool.false_ne_true
  · cases x <;> first | exact trivial | exact absurd hx Bool.false_ne_true

variable [DecidableEq ν]

theorem Written.effect (h : Written len s) (hl : Locked s) (he : Effect s i s') : Written len s' := by
  have hsame : ∀ j (p : Proc ν ι) f, j ≠ i → s.procs j = some p → p.fd = some f → p.Kept s.files f → p.Kept s.files f :=
    fun _ _ _ _ _ _ hk => hk
  -- A file that one process has locked is nobody else's.
  have halone : ∀ {j p q f}, j ≠ i → s.procs i = some p → p.place.guarded → p.fd = some f → s.procs j = some q →
      q.place.guarded → q.fd ≠ some f := by
    intro j p q f hne hp hpguarded hpf hq hqguarded hqf
    exact hne (Option.some.inj ((hl.lock j q f hq hqguarded hqf).symm.trans (hl.lock i p f hp hpguarded hpf)))
  cases he with
  | starts hnew =>
    exact h.put le_rfl h.short h.entry hsame (fun _ hf => by cases hf) (fun _ => rfl)
      (fun hroot => Proc.rights_of_first rfl ⟨hroot.1, rfl⟩) fun _ hf => by cases hf
  | @goes p q hp hgoes =>
    obtain ⟨hstart, hfd, hpid, -⟩ := hgoes.kept
    obtain ⟨hwrote, hunwritten, howned⟩ := hgoes.written (h.rights i p hp)
    have hroot : q.ByRoot → p.ByRoot := fun hroot => by rwa [Proc.ByRoot, hstart] at hroot
    refine h.put le_rfl h.short h.entry hsame (fun f hf => h.made i p f hp (hfd ▸ hf))
      (fun hq => hwrote.trans (h.unwritten i p hp (hunwritten hq)))
      (fun hq => hgoes.rights (hroot hq) (h.rights i p hp (hroot hq))) fun f hf => ?_
    have hsome : p.fd ≠ none := by
      rw [← hfd, hf]
      exact Option.some_ne_none f
    exact (h.kept i p f hp (hfd ▸ hf)).of_same hstart hpid hwrote
      (fun hguarded _ => (hgoes.guarded hguarded).resolve_right hsome)
      fun ho hq => (howned ho hq).resolve_right hsome
  | @opens p file o hp hplace hfile =>
    refine h.put (Files.made_le_create _ _ _) (fun f => ?_) (Files.create_entry_lt h.entry _ _)
      (fun j q f _ hq hf hk => ?_) (fun f hf => ?_) (fun _ => h.unwritten i p hp (by rw [hplace]; rfl))
      (fun hroot => Proc.rights_of_first rfl ((h.rights i p hp hroot).of_first (by rw [hplace]; rfl)))
      fun f _ => Proc.kept_of_not_guarded _ f rfl
    · rcases Files.create_content_or s.files file.opened o f with hold | hnew
      · rw [hold]
        exact h.short f
      · rw [hnew]
        exact Nat.zero_le _
    · have hlt := h.made j q f hq hf
      refine ⟨fun hguarded hwrote => ?_, fun howned hroot => ?_⟩
      · rw [Files.create_content _ _ hlt]
        exact hk.line hguarded hwrote
      · rw [Files.create_owner _ _ hlt]
        exact hk.owner howned hroot
    · rw [← Option.some.inj hf]
      exact Files.create_lt h.entry _ _
  | @forks p child pid hp hplace hnew =>
    have hwrote := h.unwritten i p hp (by rw [hplace]; rfl)
    have hrights : p.ByRoot → p.uid = .all 0 ∧ p.gid = p.start.gid := fun hroot =>
      (h.rights i p hp hroot).of_first (by rw [hplace]; rfl)
    have hparent : Written len (s.put i { p with place := .waiting, child := some child }) :=
      h.put le_rfl h.short h.entry hsame (fun f hf => h.made i p f hp hf) (fun _ => hwrote)
        (fun hroot => Proc.rights_of_first rfl (hrights hroot)) fun f _ => Proc.kept_of_not_guarded _ f rfl
    exact hparent.put le_rfl h.short h.entry (fun _ _ _ _ _ _ hk => hk) (fun f hf => h.made i p f hp hf)
      (fun _ => hwrote) (fun hroot => Proc.rights_of_first rfl (hrights hroot))
      fun f _ => Proc.kept_of_not_guarded _ f rfl
  | @locks p f fs hp hplace hfd hlock =>
    obtain ⟨-, rfl⟩ := Files.setlk_some hlock
    have hwrote := h.unwritten i p hp (by rw [hplace]; rfl)
    refine h.put le_rfl h.short h.entry (fun _ _ _ _ _ _ hk => ⟨hk.line, hk.owner⟩) (fun f hf => h.made i p f hp hf)
      (fun _ => hwrote) (fun hroot => ?_) fun g _ => ⟨fun _ hwritten => ?_, fun howned => ?_⟩
    · exact Proc.rights_of_first rfl ((h.rights i p hp hroot).of_first (by rw [hplace]; rfl))
    · exact absurd (hwrote.symm.trans hwritten) Bool.false_ne_true
    · exact absurd howned Bool.false_ne_true
  | @writes p f n hp hplace hfd =>
    have hguarded : p.place.guarded := by rw [hplace]; rfl
    have hroot : p.ByRoot → p.afterWriting = .owning ∧ p.uid = .all 0 ∧ p.gid = p.start.gid := fun hroot =>
      have hfirst := (h.rights i p hp hroot).of_first (by rw [hplace]; rfl)
      ⟨(Proc.Rights.settle hfirst.1).2, hfirst⟩
    refine h.put le_rfl (fun g => ?_) h.entry (fun j q g hne hq hg hk => ⟨fun hqguarded hwrote => ?_, hk.owner⟩)
      (fun g hg => h.made i p g hp hg) (fun hunwritten => ?_) (fun hq => ?_)
      fun g hg => ⟨fun _ hwrote => ?_, fun howned hq => ?_⟩
    · by_cases hgf : g = f
      · subst hgf
        have hline := (List.length_take_le' n (pidLine p.pid)).trans (length_pidLine_le p.pid)
        have hshort := h.short g
        simp only [Files.write, Function.update_self, List.length_append, List.length_drop]
        omega
      · simp only [Files.write, Function.update_of_ne hgf]
        exact h.short g
    · have hgf : g ≠ f := fun heq => halone hne hp hguarded hfd hq hqguarded (heq ▸ hg)
      simp only [Files.write, Function.update_of_ne hgf]
      exact hk.line hqguarded hwrote
    · simp only [Proc.afterWriting] at hunwritten
      split_ifs at hunwritten <;> exact absurd hunwritten Bool.false_ne_true
    · obtain ⟨hafter, hids⟩ := hroot hq
      refine Proc.rights_of_first ?_ hids
      rw [hafter]
      rfl
    · obtain rfl : f = g := Option.some.inj (hfd.symm.trans hg)
      have hn : n = (pidLine p.pid).length := of_decide_eq_true hwrote
      simp only [Files.write, Function.update_self, hn, List.take_length]
      exact List.prefix_append _ _
    · simp only [(hroot hq).1] at howned
      exact absurd howned Bool.false_ne_true
  | @owns p f hp hplace hfd =>
    have hguarded : p.place.guarded := by rw [hplace]; rfl
    refine h.put le_rfl h.short h.entry (fun j q g hne hq hg hk => ⟨hk.line, fun howned hroot => ?_⟩)
      (fun g hg => h.made i p g hp hg) (fun hunwritten => absurd hunwritten Bool.false_ne_true) (fun hroot => ?_)
      fun g hg => ⟨fun _ => (h.kept i p g hp hg).line hguarded, fun _ _ => ?_⟩
    · have hgf : g ≠ f := fun heq =>
        halone hne hp hguarded hfd hq (Place.guarded_of_owned howned) (heq ▸ hg)
      simp only [Files.chown, Function.update_of_ne hgf]
      exact hk.owner howned hroot
    · exact Proc.rights_of_first rfl ((h.rights i p hp hroot).of_first (by rw [hplace]; rfl))
    · obtain rfl : f = g := Option.some.inj (hfd.symm.trans hg)
      exact Function.update_self _ _ _
  | @removes p file hp hplace hfile hentry =>
    refine h.put le_rfl h.short (fun m f hm => ?_) (fun _ _ _ _ _ _ hk => ⟨hk.line, hk.owner⟩)
      (fun f hf => h.made i p f hp hf) (fun hunwritten => absurd hunwritten Bool.false_ne_true) (fun _ => trivial)
      fun f _ => Proc.kept_of_not_guarded _ f rfl
    by_cases hmn : m = file.removed
    · rw [hmn, Files.unlink_self] at hm
      cases hm
    · rw [Files.unlink_of_ne hmn] at hm
      exact h.entry m f hm
  | @hears p q child n hp hplace hchild hq hlen =>
    refine h.put le_rfl h.short h.entry hsame (fun f hf => h.made i p f hp hf)
      (fun _ => h.unwritten i p hp (by rw [hplace]; rfl)) (fun hroot => ?_) fun f _ => Proc.kept_of_not_guarded _ f ?_
    · have hfirst := (h.rights i p hp hroot).of_first (by rw [hplace]; rfl)
      by_cases hn : n = 8192
      · simp only [Proc.Rights, if_pos hn]
      · simp only [Proc.Rights, if_neg hn]
        exact hfirst
    · by_cases hn : n = 8192
      · simp only [if_pos hn]
        rfl
      · simp only [if_neg hn]
        rfl
  | leaves hp => exact h.quit hp rfl
  | exits hp => exact h.quit hp rfl
  | dies hp => exact h.quit hp rfl

/-! ### Runs -/

theorem Reaches.written {strerror : ℕ → CString} {k : ℕ} {s t : System ν ι} (hs : s.Initial)
    (hshort : ∀ f, (s.files.content f).length ≤ len f) (h : Reaches strerror n s k t) : Written len t :=
  (h.induction (P := fun t => Locked t ∧ Written len t)
    (fun _ _ _ hinv he => ⟨hinv.1.effect he, hinv.2.effect hinv.1 he⟩) ⟨hs.locked, hs.written hshort⟩).2

/-- **The pidfile names the router that runs**: as long as its name has not been removed, the number that is read from
the file of that name is that of the one process behind the lock, once it has been written. -/
theorem pidfile_reads {strerror : ℕ → CString} {s t : System ν ι} (hs : s.Initial)
    (hshort : ∀ f, (s.files.content f).length ≤ 7) (h : Reaches strerror n s 0 t) {file : Pidfile ν}
    (hp : t.procs j = some p) (hguarded : p.place.guarded) (hfile : p.start.pidfile = some file) (hn : file.opened = n)
    (hwrote : p.wrote) (hpid : p.pid < 10 ^ 7) :
    ∃ f rest, t.files.entry n = some f ∧ t.files.lock f = some j ∧
      Monitor.readNat (t.files.content f) = some (p.pid, rest) ∧ ∀ j', t.Guarded n j' → j' = j := by
  obtain ⟨fs, hfs⟩ := h.bound hs
  have hlocked := h.locked hs
  have hwritten : Written (fun _ => 7) t := h.written hs hshort
  obtain ⟨p', file', f, hp', -, -, -, hf, hlock⟩ := hlocked.fd ⟨p, file, hp, hguarded, hfile, hn⟩
  obtain rfl : p = p' := Option.some.inj (hp.symm.trans hp')
  have hmem := hfs.opened j p file f hp hfile hn hf
  have hcard := hfs.card
  have hpos : 0 < fs.card := Finset.card_pos.mpr ⟨f, hmem⟩
  -- There is one such file, and the name stands for it.
  have hone : ∀ g ∈ fs, g = f := fun g hg => Finset.card_le_one.mp (by omega) g hg f hmem
  obtain ⟨rest, hread⟩ := readNat_pidLine hpid (hwritten.short f) ((hwritten.kept j p f hp hf).line hguarded hwrote)
  refine ⟨f, rest, ?_, hlock, hread, fun j' hj' => ?_⟩
  · cases hentry : t.files.entry n with
    | none =>
      rw [if_pos hentry] at hcard
      omega
    | some g => rw [hone g (hfs.entry g hentry)]
  · obtain ⟨q, file', g, hq, -, hqfile, hqn, hg, hqlock⟩ := hlocked.fd hj'
    rw [hone g (hfs.opened j' q file' g hq hqfile hqn hg)] at hqlock
    exact Option.some.inj (hqlock.symm.trans hlock)

/-- No processes, and a pidfile with the number of a router that is there no more. -/
def leftover : System Unit ℕ :=
  ⟨⟨fun _ => some 0, 1, fun _ => octets "123456\n", fun _ => (0, 0), fun _ => none⟩, fun _ => none⟩

theorem leftover_initial : leftover.Initial :=
  ⟨fun _ => rfl, fun _ => rfl, fun _ _ h => Option.some.inj h ▸ Nat.zero_lt_one⟩

/-- A router that `root` starts serves, and is killed, and the next one serves while a third one is refused. -/
def succession : List (ℕ × Event Unit ℕ) :=
  parentEvents 0 ++ childEvents 1 ++ [(1, .killed)] ++ parentEvents 2 ++ childEvents 3 ++ parentEvents 4 ++
    [(5, .fails EAGAIN 8191), (5, .succeeds)]

/-- The second one has written its number to the pidfile. -/
theorem second_serves : ∃ t p file, Reaches (fun _ => []) () leftover 0 t ∧ t.procs 3 = some p ∧ p.place = .serving ∧
    p.wrote = true ∧ p.pid = 4 ∧ p.start.pidfile = some file ∧ p.start.uid = .all 0 ∧ p.start.gid = .all 0 := by
  have hrun : (System.run (fun _ => []) () succession (0, leftover)).any (fun x => x.1 = 0 ∧
      (x.2.procs 3).any fun p => p.place = .serving ∧ p.wrote = true ∧ p.pid = 4 ∧ p.start.pidfile.isSome ∧
        p.start.uid = .all 0 ∧ p.start.gid = .all 0) := by decide +kernel
  obtain ⟨⟨k, t⟩, ht, hx⟩ := (Option.any_eq_true _ _).mp hrun
  obtain ⟨rfl, hx⟩ := of_decide_eq_true hx
  obtain ⟨p, hp, hids⟩ := (Option.any_eq_true _ _).mp hx
  obtain ⟨hserves, hwrote, hpid, hfile, huid, hgid⟩ := of_decide_eq_true hids
  obtain ⟨file, hfile⟩ := Option.isSome_iff_exists.mp hfile
  exact ⟨t, p, file, Reaches.refl.run ht, hp, hserves, hwrote, hpid, hfile, huid, hgid⟩

theorem pidfile_reads_succession : ∃ t f rest, Reaches (fun _ => []) () leftover 0 t ∧ t.files.entry () = some f ∧
    t.files.lock f = some 3 ∧ Monitor.readNat (t.files.content f) = some (4, rest) := by
  obtain ⟨t, p, file, hreaches, hp, hserves, hwrote, hpid, hfile, -⟩ := second_serves
  obtain ⟨f, rest, hentry, hlock, hread, -⟩ := pidfile_reads leftover_initial (fun _ => le_rfl) hreaches hp
    (by rw [hserves]; rfl) hfile rfl hwrote (by rw [hpid]; decide)
  exact ⟨t, f, rest, hreaches, hentry, hlock, hpid ▸ hread⟩

/-- **Who serves has given up the rights of `root`**, for good: the real, the effective and the saved user and group
are those of the configuration, and so is the owner of the pidfile, on which it has the lock. -/
theorem rights_given_up {strerror : ℕ → CString} {k : ℕ} {s t : System ν ι} (hs : s.Initial)
    (h : Reaches strerror n s k t) (hp : t.procs j = some p) (hserves : p.place = .serving) (hroot : p.ByRoot) :
    p.uid = .all p.start.pwUid ∧ p.gid = .all p.start.grGid ∧
      ∀ f, p.fd = some f → t.files.lock f = some j ∧ t.files.owner f = (p.start.pwUid, p.start.grGid) := by
  have hwritten := h.written hs fun f => le_refl (s.files.content f).length
  have hrights := hwritten.rights j p hp hroot
  simp only [Proc.Rights, hserves] at hrights
  refine ⟨hrights.1, hrights.2, fun f hf => ⟨?_, ?_⟩⟩
  · exact (h.locked hs).lock j p f hp (by rw [hserves]; rfl) hf
  · exact (hwritten.kept j p f hp hf).owner (by rw [hserves]; rfl) hroot

theorem rights_given_up_succession : ∃ t p, Reaches (fun _ => []) () leftover 0 t ∧ t.procs 3 = some p ∧
    p.uid = .all p.start.pwUid ∧ p.gid = .all p.start.grGid := by
  obtain ⟨t, p, file, hreaches, hp, hserves, -, -, -, huid, hgid⟩ := second_serves
  obtain ⟨huser, hgroup, -⟩ := rights_given_up leftover_initial hreaches hp hserves ⟨huid, by rw [hgid]; rfl⟩
  exact ⟨t, p, hreaches, hp, huser, hgroup⟩

end PgRouter.Daemon
