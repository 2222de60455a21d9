import PgRouter.Watcher.Lag

/-!
# Where the master is not known

`master_pos` is a local variable of `do_watcher` that is not initialised. It is assigned when a backend
has been reached, has told that it is a master and has sent a position that can be read. The lag of every
backend is computed from it, whether it has been assigned or not.

## The model

The watcher runs among other threads, which may do anything to the context before a round, and between
its beginning and its publication. A `Turn` has what they do and what the backends answer; what a
round finds in `master_pos` is apart from it.

## What is proved

A round publishes the same whatever it finds in `master_pos` when one of the backends is up as a master,
and when nothing is published. So does every run of such rounds, and no other run
(`publishesDefined_iff`).
-/

namespace PgRouter.Watcher

/-- What a round meets with. -/
structure Turn where
  /-- What other threads make of the context before the round. -/
  before : Context → Context
  /-- The answers of the backends. -/
  probe : ℕ → Probe
  /-- What other threads make of the context before the round publishes. -/
  during : Context → Context

/-- The context and the cache at the beginning of a round. -/
def Watch.atTurn (w : Watch) (t : Turn) : Watch := { w with context := t.before w.context }

/-- A round among other threads, `masterPos` being what it finds in `master_pos`. -/
def Watch.turn (w : Watch) (t : Turn) (masterPos : Int32) : Watch where
  context := (w.atTurn t).publishTo ⟨t.probe, masterPos⟩ (t.during (w.atTurn t).context)
  health := (checkBackends t.probe 0 masterPos (refresh (w.atTurn t).context w.health)).1

/-- The watcher of a context among other threads, after a number of rounds. -/
def watchAmong (c : Context) (turns : ℕ → Turn) (masterPos : ℕ → Int32) : ℕ → Watch
  | 0 => ⟨c, []⟩
  | n + 1 => (watchAmong c turns masterPos n).turn (turns n) (masterPos n)

/-- What is published of the backends. -/
def reported (c : Context) : List (BackendStatus × BackendRole × Lag) :=
  c.backends.map fun b => (b.status, b.role, b.lag)

/-- What the rounds find in `master_pos` makes no difference to what is published. -/
def PublishesDefined (c : Context) (turns : ℕ → Turn) : Prop :=
  ∀ masterPos masterPos' n,
    reported (watchAmong c turns masterPos n).context = reported (watchAmong c turns masterPos' n).context

/-- One of the backends is up as a master, or nothing is published. -/
def Assigned (w : Watch) (t : Turn) : Prop :=
  (∃ i < (w.atTurn t).context.backends.length, (t.probe i).IsMaster) ∨
    ∀ i, ¬ Publishes (w.atTurn t) (t.during (w.atTurn t).context) i

/-! ### A round -/

/-- Where a backend is up as a master, `master_pos` is assigned. -/
theorem checkBackends_snd_congr {probe : ℕ → Probe} {i : ℕ} {hs : List Health}
    (h : ∃ j < hs.length, (probe (i + j)).IsMaster) (masterPos masterPos' : Int32) :
    (checkBackends probe i masterPos hs).2 = (checkBackends probe i masterPos' hs).2 := by
  induction hs generalizing i masterPos masterPos' with
  | nil =>
    obtain ⟨j, hj, -⟩ := h
    cases hj
  | cons _ hs ih =>
    simp only [checkBackends, check_eq]
    by_cases hmaster : (probe i).IsMaster
    · rw [if_pos hmaster, if_pos hmaster]
    · rw [if_neg hmaster, if_neg hmaster]
      refine ih ?_ masterPos masterPos'
      obtain ⟨j, hj, hup⟩ := h
      obtain ⟨j, rfl⟩ := Nat.exists_eq_add_one_of_ne_zero (n := j) fun hzero => hmaster (by simpa [hzero] using hup)
      refine ⟨j, by simpa using hj, ?_⟩
      rwa [Nat.add_assoc, Nat.add_comm 1]

/-- Where no backend has the serial number that has been checked, `master_pos` is not used. -/
theorem publish_congr {hs : List Health} {c : Context}
    (h : c.backends.length = hs.length →
      ∀ (i : ℕ) (e : Health) (b : Backend), hs[i]? = some e → c.backends[i]? = some b → e.serial ≠ b.serial)
    (masterPos masterPos' : Int32) : publish masterPos hs c = publish masterPos' hs c := by
  by_cases hlen : c.backends.length = hs.length
  · have hkept : ∀ m, List.zipWith (publishEntry m) hs c.backends = c.backends := by
      intro m
      refine List.ext_getElem? fun i => ?_
      rw [List.getElem?_zipWith]
      cases hb : c.backends[i]? with
      | none =>
        cases hs[i]? with
        | none => rfl
        | some e => rfl
      | some b =>
        have hi : i < hs.length := hlen ▸ (List.getElem?_eq_some_iff.mp hb).1
        rw [List.getElem?_eq_getElem hi]
        simp only [publishEntry]
        rw [if_pos (h hlen i _ b (List.getElem?_eq_getElem hi) hb)]
    rw [publish, publish, if_neg (not_not.mpr hlen), if_neg (not_not.mpr hlen), hkept, hkept]
  · rw [publish, publish, if_pos hlen, if_pos hlen]

/-- **A round that assigns `master_pos`, or does not use it**, does the same whatever it finds there. -/
theorem Assigned.turn_eq {w : Watch} {t : Turn} (h : Assigned w t) (masterPos masterPos' : Int32) :
    w.turn t masterPos = w.turn t masterPos' := by
  have hhealth : (checkBackends t.probe 0 masterPos (refresh (w.atTurn t).context w.health)).1 =
      (checkBackends t.probe 0 masterPos' (refresh (w.atTurn t).context w.health)).1 := by
    rw [checkBackends_fst, checkBackends_fst]
  have hcontext : (w.atTurn t).publishTo ⟨t.probe, masterPos⟩ (t.during (w.atTurn t).context) =
      (w.atTurn t).publishTo ⟨t.probe, masterPos'⟩ (t.during (w.atTurn t).context) := by
    unfold Watch.publishTo
    dsimp only
    rw [checkBackends_fst, checkBackends_fst]
    rcases h with ⟨i, hi, hmaster⟩ | hnone
    · rw [checkBackends_snd_congr ⟨i, by rwa [length_refresh], by rwa [Nat.zero_add]⟩ masterPos masterPos']
    · refine publish_congr (fun hlen i e b he hb heq => hnone i ?_) _ _
      rw [List.length_mapIdx, length_refresh] at hlen
      rw [List.getElem?_mapIdx] at he
      obtain ⟨e, he', rfl⟩ := Option.map_eq_some_iff.mp he
      have hi : i < (w.atTurn t).context.backends.length := hlen ▸ (List.getElem?_eq_some_iff.mp hb).1
      have hb₀ := List.getElem?_eq_getElem hi
      exact ⟨hlen, _, b, hb₀, hb, (refresh_serial he' hb₀).symm.trans heq⟩
  rw [Watch.turn, Watch.turn, hhealth, hcontext]

/-- Another round does not: a lag shows what it finds there. -/
theorem assigned_of_reported {w : Watch} {t : Turn}
    (h : reported (w.turn t 0).context = reported (w.turn t 1).context) : Assigned w t := by
  by_contra hnot
  rw [Assigned, not_or, not_forall] at hnot
  obtain ⟨hmaster, i, hp⟩ := hnot
  have hp := not_not.mp hp
  have hkept : ∀ m, (w.atTurn t).masterPos ⟨t.probe, m⟩ = m := fun m =>
    checkBackends_snd_of_none fun j hj hup =>
      hmaster ⟨j, by rwa [length_refresh] at hj, by rwa [Nat.zero_add] at hup⟩
  have hlag : ∀ m, (reported (w.turn t m).context)[i]?.map (fun r => r.2.2) =
      some (lagOf m (t.probe i).position) := by
    intro m
    obtain ⟨e, b, -, -, hentry⟩ := entry_published hp ⟨t.probe, m⟩
    rw [Watch.turn, reported, List.getElem?_map, hentry, hkept]
    rfl
  have hsame : lagOf 0 (t.probe i).position = lagOf 1 (t.probe i).position := by
    rw [← Option.some_inj, ← hlag, ← hlag, h]
  rw [lagOf, lagOf, UInt64.sub_left_inj] at hsame
  exact absurd hsame (by decide)

/-! ### A run -/

variable {c : Context} {turns : ℕ → Turn}

/-- A run of rounds that assign `master_pos`, or do not use it. -/
theorem watchAmong_congr {n : ℕ} (h : ∀ m, ∀ k < n, Assigned (watchAmong c turns m k) (turns k))
    (masterPos masterPos' : ℕ → Int32) : watchAmong c turns masterPos n = watchAmong c turns masterPos' n := by
  induction n with
  | zero => rfl
  | succ n ih =>
    have hbefore := ih fun m k hk => h m k (Nat.lt_succ_of_lt hk)
    rw [watchAmong, watchAmong, hbefore]
    exact (h masterPos' n (Nat.lt_succ_self n)).turn_eq _ _

/-- **Whether what is published is determined**: whatever the rounds find in `master_pos`, the status, the
role and the lag of every backend are the same after every number of rounds, just when in every round
one of the backends is up as a master, or nothing is published. -/
theorem publishesDefined_iff (c : Context) (turns : ℕ → Turn) :
    PublishesDefined c turns ↔ ∀ masterPos n, Assigned (watchAmong c turns masterPos n) (turns n) := by
  constructor
  · intro h masterPos n
    induction n using Nat.strong_induction_on generalizing masterPos with
    | _ n ih =>
      -- two runs that differ in the contents of `master_pos` in this round only
      have hround : ∀ m : Int32, watchAmong c turns (Function.update masterPos n m) (n + 1) =
          (watchAmong c turns masterPos n).turn (turns n) m := by
        intro m
        rw [watchAmong, watchAmong_congr (fun m' k hk => ih k hk m') (Function.update masterPos n m) masterPos,
          Function.update_self]
      have hreported := h (Function.update masterPos n 0) (Function.update masterPos n 1) (n + 1)
      rw [hround, hround] at hreported
      exact assigned_of_reported hreported
  · intro h masterPos masterPos' n
    rw [watchAmong_congr (fun m k _ => h m k) masterPos masterPos']

/-- In a round in which no backend can be reached, the lag is what is in `master_pos`. -/
theorem not_publishesDefined : ¬ ∀ c turns, PublishesDefined c turns := by
  intro h
  have hlags := h twoBackends.context (fun _ => ⟨id, fun _ => .bad, id⟩) (fun _ => 0) (fun _ => 1) 1
  exact absurd hlags (by decide +kernel)

end PgRouter.Watcher
