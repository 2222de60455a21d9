import PgRouter.Daemon.Exclusion

/-!
# What a launch comes to

Whoever starts a router sees its parent: what that prints, and whether it ends. The parent prints what the child tells
it, and ends when the child has closed the pipe, because it serves, or is gone.

## What is proved

A parent that ends by itself has printed what its child has told, all of it, and the child serves, and has told
nothing, or is gone (`launched`). No parent writes behind its buffer, although it puts the NUL behind as many octets as
the buffer has: a child tells one thing only, of at most 8191 octets (`Piped`). It does write in front of its buffer
when it cannot read from the pipe, and does not end by itself then, as far as it is modelled.
-/

namespace PgRouter.Daemon

open Foundation Text Wire

universe u v

variable {ν : Type u} {ι : Type v} {s s' : System ν ι} {i j : ι} {p q r : Proc ν ι}

/-- The places behind what is told. -/
def Place.failed : Place → Bool
  | .removing | .exiting | .exited _ | .killed => true
  | _ => false

/-- The places of a parent. -/
def Place.parent : Place → Bool
  | .waiting | .exited 0 => true
  | _ => false

/-- The parent `p` has printed what it has read from its child `q`, and has read everything when it ends. -/
structure Proc.Hears (p q : Proc ν ι) : Prop where
  /-- It has printed what it has read. -/
  printed : p.printed = p.heard
  /-- It has read what has been told. -/
  heard : p.heard <+: q.told
  /-- It ends at the end. -/
  ended : p.place = .exited 0 → p.heard = q.told ∧ q.place.closed

/-- What has been told stays, and nothing more is told when the pipe is closed. -/
structure Proc.Follows (p q : Proc ν ι) : Prop where
  /-- It stays. -/
  told : p.told <+: q.told
  /-- A closed pipe stays closed. -/
  closed : p.place.closed → q.place.closed ∧ q.told = p.told

/-- A parent hears what is told later. -/
theorem Proc.Hears.follows (h : p.Hears q) (hq : q.Follows r) : p.Hears r := by
  refine ⟨h.printed, h.heard.trans hq.told, fun hended => ?_⟩
  obtain ⟨heard, hclosed⟩ := h.ended hended
  obtain ⟨hstays, htold⟩ := hq.closed hclosed
  exact ⟨heard.trans htold.symm, hstays⟩

/-- The pipes between parents and children. -/
structure Piped (s : System ν ι) : Prop where
  /-- What is told fits into the buffer. -/
  short : ∀ j q, s.procs j = some q → q.told.length ≤ 8191
  /-- Nothing is told unless something fails. -/
  silent : ∀ j q, s.procs j = some q → q.place.failed = false → q.told = []
  /-- Nothing is heard before `fork`. -/
  early : ∀ i p, s.procs i = some p → p.place ∈ EARLY → p.heard = [] ∧ p.printed = []
  /-- Nobody writes behind the buffer. -/
  within : ∀ i p, s.procs i = some p → p.place ≠ .overrun
  /-- A parent hears its child. -/
  parent : ∀ i p, s.procs i = some p → p.place.parent →
    ∃ j q, p.child = some j ∧ j ≠ i ∧ s.procs j = some q ∧ p.Hears q

theorem System.Initial.piped (h : s.Initial) : Piped s :=
  ⟨fun _ _ hq => absurd hq h.ne_some, fun _ _ hq => absurd hq h.ne_some, fun _ _ hp => absurd hp h.ne_some,
    fun _ _ hp => absurd hp h.ne_some, fun _ _ hp => absurd hp h.ne_some⟩

/-- Where a child may go on behind the lock. -/
def ONWARD : List Place := [.writing, .owning, .grouping, .closing]

theorem onward_place : ∀ x ∈ ONWARD, x ∉ EARLY ∧ x ≠ .overrun ∧ x.parent = false := by decide

theorem Proc.afterWriting_onward (p : Proc ν ι) : p.afterWriting ∈ ONWARD := by
  unfold Proc.afterWriting
  split_ifs <;> decide

section Step

variable [DecidableEq ι]

/-- One process has changed, and is at `x`. -/
theorem Piped.put (h : Piped s) (fs : Files ν ι (ℕ × ℕ) Octet) {x : Place} (hx : q.place = x)
    (hfollows : ∀ p, s.procs i = some p → p.Follows q) (hshort : q.told.length ≤ 8191)
    (hsilent : x.failed = false → q.told = []) (hearly : x ∈ EARLY → q.heard = [] ∧ q.printed = [])
    (hwithin : x ≠ .overrun)
    (hparent : x.parent → ∃ j r, q.child = some j ∧ j ≠ i ∧ s.procs j = some r ∧ q.Hears r) :
    Piped ((s.withFiles fs).put i q) := by
  subst hx
  refine ⟨fun j r hr => ?_, fun j r hr hplace => ?_, fun j r hr hplace => ?_, fun j r hr => ?_, fun j p hp hplace => ?_⟩
  · obtain ⟨rfl, rfl⟩ | ⟨-, hr⟩ := System.put_procs hr
    · exact hshort
    · exact h.short j r hr
  · obtain ⟨rfl, rfl⟩ | ⟨-, hr⟩ := System.put_procs hr
    · exact hsilent hplace
    · exact h.silent j r hr hplace
  · obtain ⟨rfl, rfl⟩ | ⟨-, hr⟩ := System.put_procs hr
    · exact hearly hplace
    · exact h.early j r hr hplace
  · obtain ⟨rfl, rfl⟩ | ⟨-, hr⟩ := System.put_procs hr
    · exact hwithin
    · exact h.within j r hr
  · obtain ⟨rfl, rfl⟩ | ⟨-, hp⟩ := System.put_procs hp
    · obtain ⟨j', r, hchild, hne, hr, hhears⟩ := hparent hplace
      exact ⟨j', r, hchild, hne, (Function.update_of_ne hne _ _).trans hr, hhears⟩
    · obtain ⟨j', r, hchild, hne, hr, hhears⟩ := h.parent j p hp hplace
      by_cases hj : j' = i
      · subst hj
        exact ⟨j', q, hchild, hne, Function.update_self _ _ _, hhears.follows (hfollows r hr)⟩
      · exact ⟨j', r, hchild, hne, (Function.update_of_ne hj _ _).trans hr, hhears⟩

/-- One process has changed, but has told nothing, and is no parent. -/
theorem Piped.quiet (h : Piped s) (fs : Files ν ι (ℕ × ℕ) Octet) (hp : s.procs i = some p) {x : Place}
    (hx : q.place = x) (htold : q.told = p.told) (hopen : p.place.closed = false)
    (hfailed : x.failed = false → p.place.failed = false)
    (hearly : x ∈ EARLY → p.place ∈ EARLY ∧ q.heard = p.heard ∧ q.printed = p.printed) (hwithin : x ≠ .overrun)
    (hparent : x.parent = false) : Piped ((s.withFiles fs).put i q) := by
  refine h.put fs hx (fun p' hp' => ⟨?_, fun hclosed => ?_⟩) (htold ▸ h.short i p hp)
    (fun hplace => htold.trans (h.silent i p hp (hfailed hplace))) (fun hplace => ?_) hwithin fun hplace => ?_
  · obtain rfl : p = p' := Option.some.inj (hp.symm.trans hp')
    rw [htold]
  · obtain rfl : p = p' := Option.some.inj (hp.symm.trans hp')
    exact absurd (hopen.symm.trans hclosed) Bool.false_ne_true
  · obtain ⟨hwas, hheard, hprinted⟩ := hearly hplace
    rw [hheard, hprinted]
    exact h.early i p hp hwas
  · exact absurd (hparent.symm.trans hplace) Bool.false_ne_true

/-- One process has changed, but has told nothing, and is in a place behind `fork`. -/
theorem Piped.behind (h : Piped s) (fs : Files ν ι (ℕ × ℕ) Octet) (hp : s.procs i = some p) {x : Place}
    (hx : q.place = x) (htold : q.told = p.told) (hopen : p.place.closed = false)
    (hfailed : x.failed = false → p.place.failed = false) (hplace : x ∉ EARLY ∧ x ≠ .overrun ∧ x.parent = false) :
    Piped ((s.withFiles fs).put i q) := by
  obtain ⟨hearly, hwithin, hparent⟩ := hplace
  exact h.quiet fs hp hx htold hopen hfailed (fun hx' => absurd hx' hearly) hwithin hparent

/-- A process goes on. -/
theorem Piped.goes (h : Piped s) (hp : s.procs i = some p) (hgoes : p.Goes q) : Piped (s.put i q) := by
  cases hgoes with
  | unnamed hplace =>
    exact h.quiet s.files hp rfl rfl (by rw [hplace]; rfl) (fun _ => by rw [hplace]; rfl)
      (fun _ => ⟨by rw [hplace]; decide, rfl, rfl⟩) (by dsimp only; decide) rfl
  | on hplace =>
    simp only [PLAIN, List.mem_cons, Prod.mk.injEq, List.not_mem_nil, or_false] at hplace
    rcases hplace with ⟨hx, rfl⟩ | ⟨hx, rfl⟩ | ⟨hx, rfl⟩ | ⟨hx, rfl⟩ | ⟨hx, rfl⟩ | ⟨hx, rfl⟩
    iterate 4
      exact h.quiet s.files hp rfl rfl (by rw [hx]; rfl) (fun _ => by rw [hx]; rfl)
        (fun _ => ⟨by rw [hx]; decide, rfl, rfl⟩) (by dsimp only; decide) rfl
    · exact h.behind s.files hp rfl rfl (by rw [hx]; rfl) (fun hfailed => absurd hfailed (by dsimp only; decide))
        (by dsimp only; decide)
    · exact h.behind s.files hp rfl rfl (by rw [hx]; rfl) (fun _ => by rw [hx]; rfl) (by dsimp only; decide)
  | unlocked hplace | same hplace | grouped hplace | stays hplace | switched hplace | misreads hplace =>
    exact h.behind s.files hp rfl rfl (by rw [hplace]; rfl) (fun _ => by rw [hplace]; rfl) (by dsimp only; decide)
  | left hplace =>
    have hx : (if p.fd.isSome then Place.writing else p.settle) ∈ ONWARD := by
      unfold Proc.settle
      split_ifs <;> decide
    generalize (if p.fd.isSome then Place.writing else p.settle) = x at hx
    exact h.behind s.files hp rfl rfl (by rw [hplace]; rfl) (fun _ => by rw [hplace]; rfl) (onward_place x hx)
  | unwritten hplace =>
    exact h.behind s.files hp rfl rfl (by rw [hplace]; rfl) (fun _ => by rw [hplace]; rfl)
      (onward_place _ p.afterWriting_onward)
  | prints hplace =>
    refine h.behind s.files hp rfl rfl ?_ (fun hfailed => absurd hfailed (by dsimp only; decide))
      (by dsimp only; decide)
    generalize p.place = x at hplace
    revert x
    decide
  | tells hplace hlen =>
    simp only [TELLING, List.mem_cons, Prod.mk.injEq, List.not_mem_nil, or_false] at hplace
    rcases hplace with ⟨hx, rfl⟩ | ⟨hx, rfl⟩ | ⟨hx, rfl⟩ | ⟨hx, rfl⟩ | ⟨hx, rfl⟩
    all_goals
      have htold := h.silent i p hp (by rw [hx]; rfl)
      refine h.put s.files rfl (fun p' hp' => ?_) ?_ (fun hfailed => absurd hfailed (by dsimp only; decide))
        (fun hearly => absurd hearly (by dsimp only; decide)) (by dsimp only; decide)
        fun hparent => absurd hparent (by dsimp only; decide)
      · obtain rfl : p = p' := Option.some.inj (hp.symm.trans hp')
        refine ⟨List.prefix_append _ _, fun hclosed => ?_⟩
        rw [hx] at hclosed
        exact absurd hclosed (by decide)
      · simpa only [htold, List.nil_append] using hlen

/-- A process is gone. -/
theorem Piped.quit (h : Piped s) (hp : s.procs i = some p) {x : Place} (hx : x.gone)
    (hparent : x.parent → ∃ j r, p.child = some j ∧ j ≠ i ∧ s.procs j = some r ∧ Proc.Hears { p with place := x } r) :
    Piped (s.quit i p x) := by
  have hplaces : x.failed ∧ x ∉ EARLY ∧ x ≠ .overrun ∧ x.closed := by
    cases x <;> first | exact absurd hx Bool.false_ne_true | exact ⟨rfl, by simp [EARLY], by simp, rfl⟩
  obtain ⟨hfailed, hearly, hwithin, hclosed⟩ := hplaces
  refine h.put (s.files.release i) rfl (fun p' hp' => ?_) (h.short i p hp) (fun hfailed' => ?_)
    (fun hearly' => absurd hearly' hearly) hwithin hparent
  · obtain rfl : p = p' := Option.some.inj (hp.symm.trans hp')
    exact ⟨List.prefix_refl _, fun _ => ⟨hclosed, rfl⟩⟩
  · exact absurd (hfailed'.symm.trans hfailed) Bool.false_ne_true

variable [DecidableEq ν]

theorem Piped.effect (h : Piped s) (he : Effect s i s') : Piped s' := by
  cases he with
  | starts hnew =>
    refine h.put (x := .opening) s.files rfl (fun p hp => ?_) (Nat.zero_le _) (fun _ => rfl) (fun _ => ⟨rfl, rfl⟩)
      (by decide) fun hparent => absurd hparent (by decide)
    rw [hnew] at hp
    cases hp
  | goes hp hgoes => exact h.goes hp hgoes
  | opens hp hplace hfile =>
    exact h.quiet _ hp rfl rfl (by rw [hplace]; rfl) (fun _ => by rw [hplace]; rfl)
      (fun _ => ⟨by rw [hplace]; decide, rfl, rfl⟩) (by dsimp only; decide) rfl
  | @forks p child pid hp hplace hnew =>
    have htold := h.silent i p hp (by rw [hplace]; rfl)
    obtain ⟨heard, hprinted⟩ := h.early i p hp (by rw [hplace]; decide)
    have hne : child ≠ i := by
      rintro rfl
      rw [hp] at hnew
      cases hnew
    -- The child is put first, so that the parent has somebody to hear.
    have hchild : Piped (s.put child { p with pid := pid, place := .locking }) := by
      refine h.put s.files rfl (fun p' hp' => ?_) (h.short i p hp) (fun _ => htold)
        (fun hearly => absurd hearly (by dsimp only; decide)) (by dsimp only; decide)
        fun hparent => absurd hparent (by dsimp only; decide)
      rw [hnew] at hp'
      cases hp'
    have hparent : Piped ((s.put child { p with pid := pid, place := .locking }).put i
        { p with place := .waiting, child := some child }) := by
      refine hchild.put s.files rfl (fun p' hp' => ?_) (h.short i p hp) (fun _ => htold)
        (fun hearly => absurd hearly (by dsimp only; decide)) (by dsimp only; decide)
        fun _ => ⟨child, _, rfl, hne, Function.update_self _ _ _, ?_⟩
      · obtain rfl : p = p' := Option.some.inj (hp.symm.trans ((Function.update_of_ne hne.symm _ _).symm.trans hp'))
        refine ⟨List.prefix_refl _, fun hclosed => ?_⟩
        rw [hplace] at hclosed
        exact absurd hclosed (by decide)
      · refine ⟨hprinted.trans heard.symm, ?_, fun hended => by cases hended⟩
        rw [heard]
        exact List.nil_prefix
    have hcomm : (s.put i { p with place := .waiting, child := some child }).put child
        { p with pid := pid, place := .locking } =
        (s.put child { p with pid := pid, place := .locking }).put i
          { p with place := .waiting, child := some child } := by
      simp only [System.put]
      rw [Function.update_comm hne.symm]
    rw [hcomm]
    exact hparent
  | locks hp hplace hfd hlock =>
    exact h.behind _ hp rfl rfl (by rw [hplace]; rfl) (fun _ => by rw [hplace]; rfl) (by dsimp only; decide)
  | @writes p f n hp hplace hfd =>
    exact h.behind _ hp rfl rfl (by rw [hplace]; rfl) (fun _ => by rw [hplace]; rfl)
      (onward_place _ p.afterWriting_onward)
  | owns hp hplace hfd =>
    exact h.behind _ hp rfl rfl (by rw [hplace]; rfl) (fun _ => by rw [hplace]; rfl) (by dsimp only; decide)
  | removes hp hplace hfile hentry =>
    exact h.behind _ hp rfl rfl (by rw [hplace]; rfl) (fun hfailed => absurd hfailed (by dsimp only; decide))
      (by dsimp only; decide)
  | @hears p q child n hp hplace hchild hq hlen =>
    obtain ⟨child', q', hchild', hne, hq', hhears⟩ := h.parent i p hp (by rw [hplace]; rfl)
    obtain rfl : child = child' := Option.some.inj (hchild.symm.trans hchild')
    obtain rfl : q = q' := Option.some.inj (hq.symm.trans hq')
    have hshort := h.short child q hq
    have hn : n ≠ 8192 := by
      simp only [List.length_take, List.length_drop] at hlen
      omega
    simp only [if_neg hn]
    refine h.put s.files rfl (fun p' hp' => ?_) (h.short i p hp) (fun _ => h.silent i p hp (by rw [hplace]; rfl))
      (fun hearly => absurd hearly (by dsimp only; decide)) (by dsimp only; decide)
      fun _ => ⟨child, q, hchild, hne, hq, ?_⟩
    · obtain rfl : p = p' := Option.some.inj (hp.symm.trans hp')
      refine ⟨List.prefix_refl _, fun hclosed => ?_⟩
      rw [hplace] at hclosed
      exact absurd hclosed (by decide)
    · refine ⟨by rw [hhears.printed], ?_, fun hended => by cases hended⟩
      obtain ⟨rest, hrest⟩ := hhears.heard
      rw [← hrest, List.drop_left]
      exact (List.prefix_append_right_inj _).mpr (List.take_prefix _ _)
  | leaves hp hplace hchild hq hclosed heard =>
    obtain ⟨child', q', hchild', hne, hq', hhears⟩ := h.parent i _ hp (by rw [hplace]; rfl)
    obtain rfl := Option.some.inj (hchild.symm.trans hchild')
    obtain rfl := Option.some.inj (hq.symm.trans hq')
    exact h.quit hp rfl fun _ => ⟨_, _, hchild, hne, hq, hhears.printed, hhears.heard, fun _ => ⟨heard, hclosed⟩⟩
  | exits hp hplace => exact h.quit hp rfl fun hparent => absurd hparent (by decide)
  | dies hp hthere => exact h.quit hp rfl fun hparent => absurd hparent (by decide)

end Step

variable [DecidableEq ν] [DecidableEq ι]

theorem Reaches.piped {strerror : ℕ → CString} {n : ν} {k : ℕ} {s t : System ν ι} (hs : s.Initial)
    (h : Reaches strerror n s k t) : Piped t :=
  h.induction (fun _ _ _ => Piped.effect) hs.piped

/-- **A launch comes to what it shows**: no process writes behind its buffer, and a parent that ends by itself has
printed all that its child has told, which serves, and has told nothing, or is gone. -/
theorem launched {strerror : ℕ → CString} {n : ν} {k : ℕ} {s t : System ν ι} (hs : s.Initial)
    (h : Reaches strerror n s k t) (hp : t.procs i = some p) :
    p.place ≠ .overrun ∧ (p.place = .exited 0 → ∃ j q, p.child = some j ∧ t.procs j = some q ∧ p.printed = q.told ∧
      (q.place = .serving ∧ q.told = [] ∨ q.place.gone)) := by
  have hpiped := h.piped hs
  refine ⟨hpiped.within i p hp, fun hended => ?_⟩
  obtain ⟨j, q, hchild, -, hq, hhears⟩ := hpiped.parent i p hp (by rw [hended]; rfl)
  obtain ⟨heard, hclosed⟩ := hhears.ended hended
  refine ⟨j, q, hchild, hq, hhears.printed.trans heard, ?_⟩
  cases hplace : q.place with
  | serving => exact .inl ⟨rfl, hpiped.silent j q hq (by rw [hplace]; rfl)⟩
  | exited | killed => exact .inr rfl
  | _ =>
    rw [hplace] at hclosed
    exact absurd hclosed (by decide)

/-- What is told when the pidfile is locked. -/
def lockedText : List Octet := octets "Failed to acquire lock on p.  Is another copy running?\n"

/-- A child fails because the pidfile is locked, and its parent ends when it has been told. -/
def refusedEvents : List (ℕ × Event Unit ℕ) :=
  parentEvents 0 ++ childEvents 1 ++ parentEvents 2 ++
    [(3, .fails EAGAIN 8191), (3, .succeeds), (2, .moves 55), (2, .succeeds)]

theorem launched_refused : ∃ t p j q, Reaches (fun _ => []) () nobody 0 t ∧ t.procs 2 = some p ∧ p.child = some j ∧
    t.procs j = some q ∧ q.told = lockedText := by
  have hrun : (System.run (fun _ => []) () refusedEvents (0, nobody)).any (fun x => x.1 = 0 ∧
      (x.2.procs 2).any fun p => p.place = .exited 0 ∧ p.printed = lockedText) := by decide +kernel
  obtain ⟨⟨k, t⟩, ht, hx⟩ := (Option.any_eq_true _ _).mp hrun
  obtain ⟨rfl, hx⟩ := of_decide_eq_true hx
  obtain ⟨p, hp, hp'⟩ := (Option.any_eq_true _ _).mp hx
  obtain ⟨hended, hprinted⟩ := of_decide_eq_true hp'
  obtain ⟨j, q, hchild, hq, htold, -⟩ := (launched nobody_initial (Reaches.refl.run ht) hp).2 hended
  exact ⟨t, p, j, q, Reaches.refl.run ht, hp, hchild, hq, htold.symm.trans hprinted⟩

end PgRouter.Daemon
