import Mathlib.Logic.Relation
import PgRouter.Config.Complete
import PgRouter.Watcher.Rounds

/-!
# The counter of the backends that are up

The monitor tells, under the read lock of the context, how many backends are up, which is the
counter `ok_backends`, and then of each backend whether it is. Both are written by the watcher, one
backend after the other, and the configuration may be loaded again while it makes its round.

## The model

A state of the router is the context, the cache of the watcher and where the watcher is in its round.
The watcher moves on by one critical section, but in the last one, for which it has the write lock, by
one backend. The supervisor loads the configuration again, under the write lock, wherever the watcher
does not have it. The other threads do not write what is modelled of the context. So another thread
can have the read lock in every state in which the watcher does not publish.

## What is proved

A reload leaves the backends alone, so that their serial numbers are those in the cache when the
findings are published (`Synced`): no backend is skipped, and no round is abandoned. Wherever another
thread can look at it, the counter is the number of the backends that are up (`monitor_consistent`).
-/

namespace PgRouter.Watcher

open Config Foundation Text Wire

/-! ### The runs -/

/-- Where the watcher is in a round. -/
inductive Phase where
  /-- Before the first part. -/
  | waiting
  /-- The cache is refreshed. -/
  | refreshed
  /-- The backends are checked. -/
  | checked (masterPos : Int32)
  /-- The watcher has the write lock of the context, and has published its findings on the first `i`
  backends. -/
  | publishing (masterPos : Int32) (i : ℕ)

/-- A state of the router. -/
structure Router where
  /-- The context. -/
  context : Context
  /-- `BACKENDS`. -/
  health : List Health
  /-- Where the watcher is. -/
  phase : Phase

/-- The state when the threads are started. -/
def Router.start (c : Context) : Router := ⟨c, [], .waiting⟩

/-- Another thread can have the read lock of the context. -/
def Router.Readable (r : Router) : Prop := ∀ masterPos i, r.phase ≠ .publishing masterPos i

/-- The body of the loop that publishes the findings, for the backend with index `i`. -/
def publishOne (masterPos : Int32) (h : Health) (i : ℕ) (c : Context) : Context :=
  match c.backends[i]? with
  | none => c
  | some b =>
    if h.serial ≠ b.serial then c
    else { c with
      okBackends := if h.ok = .ok then c.okBackends + 1 else c.okBackends
      backends := c.backends.set i (publishEntry masterPos h b) }

/-- A step of the watcher or of the supervisor. -/
inductive Step : Router → Router → Prop
  /-- The watcher refreshes its cache. -/
  | refresh {c : Context} {hs : List Health} : Step ⟨c, hs, .waiting⟩ ⟨c, refresh c hs, .refreshed⟩
  /-- It checks the backends. -/
  | check {c : Context} {hs : List Health} (f : Findings) :
      Step ⟨c, hs, .refreshed⟩ ⟨c, (checkBackends f.probe 0 f.masterPos hs).1,
        .checked (checkBackends f.probe 0 f.masterPos hs).2⟩
  /-- The number of backends has changed, and the round is abandoned. -/
  | abandon {c : Context} {hs : List Health} {masterPos : Int32} (changed : c.backends.length ≠ hs.length) :
      Step ⟨c, hs, .checked masterPos⟩ ⟨c, hs, .waiting⟩
  /-- It begins to publish its findings. -/
  | lock {c : Context} {hs : List Health} {masterPos : Int32} (same : c.backends.length = hs.length) :
      Step ⟨c, hs, .checked masterPos⟩ ⟨{ c with okBackends := 0 }, hs, .publishing masterPos 0⟩
  /-- It goes on to the next backend. -/
  | publish {c : Context} {hs : List Health} {masterPos : Int32} {i : ℕ} {h : Health} (entry : hs[i]? = some h) :
      Step ⟨c, hs, .publishing masterPos i⟩ ⟨publishOne masterPos h i c, hs, .publishing masterPos (i + 1)⟩
  /-- It has published them all. -/
  | unlock {c : Context} {hs : List Health} {masterPos : Int32} :
      Step ⟨c, hs, .publishing masterPos hs.length⟩ ⟨c, hs, .waiting⟩
  /-- The configuration is loaded again, or cannot be. -/
  | reload {r : Router} {rc : ℤ} {c : Context} (text : List Octet) (free : r.Readable)
      (loaded : pgrConfigure r.context text true = some (rc, c)) : Step r { r with context := c }

/-! ### Loading the configuration -/

theorem updateStartup_backends {reload : Bool} {c c' : Context} {p : Parser} (h : updateStartup reload c p = some c') :
    c'.backends = c.backends ∧ c'.okBackends = c.okBackends := by
  unfold updateStartup at h
  simp only [Option.bind_eq_bind, Option.bind_eq_some_iff, Option.pure_def, Option.some.injEq] at h
  obtain ⟨-, -, -, -, -, -, -, -, -, -, -, -, -, -, -, -, -, -, -, -, rfl⟩ := h
  exact ⟨rfl, rfl⟩

/-- Loading the configuration leaves the counter alone, and loading it again the backends. -/
theorem pgrConfigure_backends {c c' : Context} {text : List Octet} {reload : Bool} {rc : ℤ}
    (h : pgrConfigure c text reload = some (rc, c')) :
    c'.okBackends = c.okBackends ∧ (reload = true → c'.backends = c.backends) := by
  obtain ⟨⟨rc₀, p⟩, -, h⟩ := Option.bind_eq_some_iff.mp h
  dsimp only at h
  by_cases hrc : rc₀ ≠ 0
  · rw [if_pos hrc] at h
    obtain ⟨-, rfl⟩ := Prod.mk.inj (Option.some.inj h)
    exact ⟨rfl, fun _ => rfl⟩
  · rw [if_neg hrc] at h
    obtain ⟨c₁, hc₁, h⟩ := Option.bind_eq_some_iff.mp h
    obtain ⟨hb, hok⟩ := updateStartup_backends hc₁
    cases reload with
    | true =>
      obtain ⟨-, rfl⟩ := Prod.mk.inj (Option.some.inj h)
      exact ⟨hok, fun _ => hb⟩
    | false =>
      obtain ⟨-, rfl⟩ := Prod.mk.inj (Option.some.inj h)
      exact ⟨hok, nofun⟩

/-! ### The invariant -/

/-- How many of the backends are up. -/
def countOk (bs : List Backend) : ℕ := bs.countP fun b => b.status = .ok

/-- The counter is right. -/
def Consistent (c : Context) : Prop := c.okBackends = countOk c.backends

/-- The cache has the serial numbers of the backends. -/
def Synced (hs : List Health) (bs : List Backend) : Prop := List.Forall₂ (fun h b => h.serial = b.serial) hs bs

/-- What is true in every state of a run. While the findings are published, the counter is right for
those backends that are done. -/
def Invariant (r : Router) : Prop :=
  match r.phase with
  | .waiting => Consistent r.context
  | .refreshed | .checked _ => Consistent r.context ∧ Synced r.health r.context.backends
  | .publishing _ i => Synced r.health r.context.backends ∧ i ≤ r.health.length ∧
      r.context.okBackends = countOk (r.context.backends.take i)

/-- A refreshed cache has the serial numbers of the backends. -/
theorem refresh_synced (c : Context) (hs : List Health) : Synced (refresh c hs) c.backends := by
  refine List.forall₂_iff_get.mpr ⟨length_refresh c hs, fun i hi hi' => ?_⟩
  exact refresh_serial (List.getElem?_eq_getElem hi) (List.getElem?_eq_getElem hi')

/-- A check keeps the serial numbers. -/
theorem Synced.check {hs : List Health} {bs : List Backend} (h : Synced hs bs) (f : Findings) :
    Synced (checkBackends f.probe 0 f.masterPos hs).1 bs := by
  rw [checkBackends_fst]
  obtain ⟨hlen, hget⟩ := List.forall₂_iff_get.mp h
  refine List.forall₂_iff_get.mpr ⟨by rwa [List.length_mapIdx], fun i hi hi' => ?_⟩
  rw [List.length_mapIdx] at hi
  simpa [Health.found] using hget i hi hi'

/-- Before a backend has been checked for the first time, it is not up. -/
theorem pgrContext_countOk (c : Context) : countOk (pgrContext c).backends = 0 := by
  refine List.countP_eq_zero.mpr fun b hb => ?_
  obtain ⟨b₀, -, rfl⟩ := List.mem_map.mp hb
  simp

/-- A backend that is in step is not skipped. -/
theorem publishOne_eq {c : Context} {i : ℕ} {h : Health} {b : Backend} (hb : c.backends[i]? = some b)
    (hserial : h.serial = b.serial) (masterPos : Int32) :
    publishOne masterPos h i c = { c with
      okBackends := if h.ok = .ok then c.okBackends + 1 else c.okBackends
      backends := c.backends.set i (publishEntry masterPos h b) } := by
  simp only [publishOne, hb, if_neg (not_not.mpr hserial)]

/-- Its status is counted. -/
theorem Synced.publishOne {c : Context} {hs : List Health} (hsync : Synced hs c.backends) {i : ℕ} {h : Health}
    (hi : hs[i]? = some h) (hcount : c.okBackends = countOk (c.backends.take i)) (masterPos : Int32) :
    Synced hs (publishOne masterPos h i c).backends ∧
      (publishOne masterPos h i c).okBackends = countOk ((publishOne masterPos h i c).backends.take (i + 1)) := by
  obtain ⟨hlt, rfl⟩ := List.getElem?_eq_some_iff.mp hi
  obtain ⟨hlen, hget⟩ := List.forall₂_iff_get.mp hsync
  have hlt' : i < c.backends.length := hlen ▸ hlt
  have hserial : hs[i].serial = c.backends[i].serial := hget i hlt hlt'
  have hentry : (publishEntry masterPos hs[i] c.backends[i]).status = hs[i].ok ∧
      (publishEntry masterPos hs[i] c.backends[i]).serial = c.backends[i].serial := by
    rw [publishEntry, if_neg (not_not.mpr hserial)]
    exact ⟨rfl, rfl⟩
  rw [publishOne_eq (List.getElem?_eq_getElem hlt') hserial]
  refine ⟨List.forall₂_iff_get.mpr ⟨by rwa [List.length_set], fun j hj hj' => ?_⟩, ?_⟩
  · by_cases hij : i = j
    · subst hij
      simpa [hentry.2] using hserial
    · simpa [List.getElem_set_of_ne hij] using hget j hj (hlen ▸ hj)
  · have htake : (c.backends.set i (publishEntry masterPos hs[i] c.backends[i])).take (i + 1) =
        c.backends.take i ++ [publishEntry masterPos hs[i] c.backends[i]] := by
      rw [List.take_add_one, List.take_set_of_le le_rfl, List.getElem?_set_self hlt']
      rfl
    simp only [htake, countOk, List.countP_append, List.countP_singleton, hentry.1, decide_eq_true_eq]
    rw [← countOk, hcount]
    split_ifs <;> simp

/-- **Every step keeps the invariant.** -/
theorem Invariant.step {r r' : Router} (h : Invariant r) (hstep : Step r r') :
    Invariant r' := by
  cases hstep with
  | @refresh c hs => exact ⟨h, refresh_synced c hs⟩
  | check f => exact ⟨h.1, h.2.check f⟩
  | abandon => exact h.1
  | lock => exact ⟨h.2, Nat.zero_le _, rfl⟩
  | publish entry =>
    obtain ⟨hsync, hle, hcount⟩ := h
    obtain ⟨hsync', hcount'⟩ := hsync.publishOne entry hcount _
    exact ⟨hsync', (List.getElem?_eq_some_iff.mp entry).1, hcount'⟩
  | @unlock c hs masterPos =>
    obtain ⟨hsync, -, hcount⟩ := h
    rw [List.take_of_length_le hsync.length_eq.ge] at hcount
    exact hcount
  | @reload r rc c text free loaded =>
    obtain ⟨hok, hb⟩ := pgrConfigure_backends loaded
    have hb := hb rfl
    have hc : Consistent r.context → Consistent c := fun hc => by rwa [Consistent, hok, hb]
    have hs : Synced r.health r.context.backends → Synced r.health c.backends := fun hs => by rwa [hb]
    rcases r with ⟨c₀, hs₀, _ | _ | masterPos | ⟨masterPos, i⟩⟩
    · exact hc h
    · exact ⟨hc h.1, hs h.2⟩
    · exact ⟨hc h.1, hs h.2⟩
    · exact absurd rfl (free masterPos i)

/-- Before the first round no backend is up, and none is counted. -/
theorem start_invariant {text : List Octet} {rc : ℤ} {c : Context}
    (h : pgrConfigure .zero text false = some (rc, c)) : Invariant (.start (pgrContext c)) := by
  change c.okBackends = (countOk (pgrContext c).backends : ℤ)
  rw [(pgrConfigure_backends h).1, pgrContext_countOk]
  rfl

/-- **What the monitor tells.** After the configuration has been loaded, whatever the watcher finds and
however often and whenever the configuration is loaded again, in every state in which another thread can
have the read lock of the context the counter is the number of the backends that are up. -/
theorem monitor_consistent {text : List Octet} {c : Context}
    (loaded : pgrConfigure .zero text false = some (0, c)) {r : Router}
    (run : Relation.ReflTransGen Step (.start (pgrContext c)) r) (readable : r.Readable) :
    r.context.okBackends = r.context.backends.countP fun b => b.status = .ok := by
  have hinv : Invariant r := by
    clear readable
    induction run with
    | refl => exact start_invariant loaded
    | tail _ hstep ih => exact ih.step hstep
  rcases r with ⟨c₀, hs, _ | _ | masterPos | ⟨masterPos, i⟩⟩
  · exact hinv
  · exact hinv.1
  · exact hinv.1
  · exact absurd rfl (readable masterPos i)

/-! ### A round without interference -/

/-- A list of which the first `i` entries have been replaced still has the others. -/
theorem getElem?_take_append_drop {α : Type} {xs ys : List α} {i : ℕ} {x : α} (hi : i < ys.length)
    (hx : xs[i]? = some x) : (ys.take i ++ xs.drop i)[i]? = some x := by
  have hdone : (ys.take i).length = i := List.length_take_of_le hi.le
  rw [List.getElem?_append_right hdone.le, hdone, Nat.sub_self, List.getElem?_drop, Nat.add_zero, hx]

/-- The next entry is replaced. -/
theorem set_take_append_drop {α : Type} {xs ys : List α} {i : ℕ} {x y : α} (hy : ys[i]? = some y)
    (hx : xs[i]? = some x) : (ys.take i ++ xs.drop i).set i y = ys.take (i + 1) ++ xs.drop (i + 1) := by
  obtain ⟨hi, -⟩ := List.getElem?_eq_some_iff.mp hy
  obtain ⟨hi', -⟩ := List.getElem?_eq_some_iff.mp hx
  have hdone : (ys.take i).length = i := List.length_take_of_le hi.le
  rw [List.set_append_right _ _ hdone.le, hdone, Nat.sub_self, List.drop_eq_getElem_cons hi', List.set_cons_zero,
    List.take_add_one, hy, Option.toList_some, List.append_assoc]
  rfl

/-- The context when the findings are published on the first `i` backends. -/
def publishedTo (masterPos : Int32) (hs : List Health) (c : Context) (i : ℕ) : Context :=
  { c with
    okBackends := ((hs.zip c.backends).take i).countP fun (h, b) => h.serial = b.serial ∧ h.ok = .ok
    backends := (List.zipWith (publishEntry masterPos) hs c.backends).take i ++ c.backends.drop i }

theorem publishOne_publishedTo (masterPos : Int32) {hs : List Health} {c : Context}
    (hlen : c.backends.length = hs.length) {i : ℕ} {h : Health} (hi : hs[i]? = some h) :
    publishOne masterPos h i (publishedTo masterPos hs c i) = publishedTo masterPos hs c (i + 1) := by
  obtain ⟨hlt, rfl⟩ := List.getElem?_eq_some_iff.mp hi
  have hlt' : i < c.backends.length := hlen ▸ hlt
  have hzip : (hs.zip c.backends)[i]? = some (hs[i], c.backends[i]) := by
    rw [List.getElem?_zip_eq_some]
    exact ⟨hi, List.getElem?_eq_getElem hlt'⟩
  have hnext : (List.zipWith (publishEntry masterPos) hs c.backends)[i]? =
      some (publishEntry masterPos hs[i] c.backends[i]) := by
    rw [List.getElem?_zipWith, hi, List.getElem?_eq_getElem hlt']
  have hget : (publishedTo masterPos hs c i).backends[i]? = some c.backends[i] :=
    getElem?_take_append_drop (List.getElem?_eq_some_iff.mp hnext).1 (List.getElem?_eq_getElem hlt')
  have hbackends : (publishedTo masterPos hs c (i + 1)).backends =
      (publishedTo masterPos hs c i).backends.set i (publishEntry masterPos hs[i] c.backends[i]) :=
    (set_take_append_drop hnext (List.getElem?_eq_getElem hlt')).symm
  have hcount : (publishedTo masterPos hs c (i + 1)).okBackends = (publishedTo masterPos hs c i).okBackends +
      if hs[i].serial = c.backends[i].serial ∧ hs[i].ok = .ok then 1 else 0 := by
    change ((List.countP _ (List.take (i + 1) _) : ℕ) : ℤ) = _
    rw [List.take_add_one, hzip, Option.toList_some, List.countP_append, List.countP_singleton]
    simp only [decide_eq_true_eq]
    split_ifs <;> rfl
  have hctx : publishedTo masterPos hs c (i + 1) = { publishedTo masterPos hs c i with
      okBackends := (publishedTo masterPos hs c (i + 1)).okBackends
      backends := (publishedTo masterPos hs c (i + 1)).backends } := rfl
  rw [hctx, hcount, hbackends]
  by_cases hserial : hs[i].serial = c.backends[i].serial
  · rw [publishOne_eq hget hserial]
    simp only [hserial, true_and]
    split_ifs
    · rfl
    · rw [Int.add_zero]
  · have hskip : publishOne masterPos hs[i] i (publishedTo masterPos hs c i) = publishedTo masterPos hs c i := by
      simp only [publishOne, hget, if_pos hserial]
    have hsame : (publishedTo masterPos hs c i).backends.set i c.backends[i] =
        (publishedTo masterPos hs c i).backends := by
      obtain ⟨hlt, hself⟩ := List.getElem?_eq_some_iff.mp hget
      rw [← hself, List.set_getElem_self]
    rw [hskip, publishEntry, if_pos hserial, hsame, if_neg fun h => hserial h.1, Int.add_zero]

/-- When they are published on all, it is as `publish` leaves it. -/
theorem publishedTo_length (masterPos : Int32) {hs : List Health} {c : Context}
    (hlen : c.backends.length = hs.length) : publishedTo masterPos hs c hs.length = publish masterPos hs c := by
  rw [publish, if_neg (not_not.mpr hlen), publishedTo, List.take_of_length_le, List.take_of_length_le,
    List.drop_of_length_le hlen.le, List.append_nil]
  · rw [List.length_zipWith]
    omega
  · rw [List.length_zip]
    omega

/-- If the configuration is not loaded again meanwhile, the steps of the third part come to `publish`. -/
theorem publish_run (masterPos : Int32) {hs : List Health} {c : Context}
    (hlen : c.backends.length = hs.length) :
    Relation.ReflTransGen Step ⟨c, hs, .checked masterPos⟩ ⟨publish masterPos hs c, hs, .waiting⟩ := by
  have hrun : ∀ i ≤ hs.length, Relation.ReflTransGen Step ⟨c, hs, .checked masterPos⟩
      ⟨publishedTo masterPos hs c i, hs, .publishing masterPos i⟩ := by
    intro i hi
    induction i with
    | zero =>
      have hstep : Step ⟨c, hs, .checked masterPos⟩ _ := .lock hlen
      exact .single hstep
    | succ i ih =>
      have hstep : Step ⟨publishedTo masterPos hs c i, hs, .publishing masterPos i⟩ _ :=
        .publish (List.getElem?_eq_getElem (show i < hs.length from hi))
      rw [publishOne_publishedTo masterPos hlen (List.getElem?_eq_getElem hi)] at hstep
      exact (ih (by omega)).tail hstep
  have hunlock : Step ⟨publishedTo masterPos hs c hs.length, hs, .publishing masterPos hs.length⟩
      ⟨publishedTo masterPos hs c hs.length, hs, .waiting⟩ := .unlock
  rw [← publishedTo_length masterPos hlen]
  exact (hrun hs.length le_rfl).tail hunlock

/-- The backend of the configuration `backend x:1 {}`. -/
def oneBackend : Backend where
  serial := 1
  hostname := octets "x"
  port := 1
  tls := TLS_OFF
  role := .unknown
  status := .ok
  weight := 1
  lag := 0
  threshold := 100
  healthDatabase := some (octets "postgres")
  healthUsername := some (octets "postgres")
  healthPassword := some []

/-- A round that finds it up. -/
theorem monitor_consistent_one :
    let c := pgrContext { Context.zero with backends := [oneBackend] }
    let r := checkBackends (fun _ => .answers [0x66] [0x30, 0x2f, 0x31]) 0 0 (refresh c [])
    (publish r.2 r.1 c).okBackends = (publish r.2 r.1 c).backends.countP fun b => b.status = .ok := by
  intro c r
  have loaded : pgrConfigure .zero (octets "backend x:1 \x7b \x7d ") false =
      some (0, { Context.zero with backends := [oneBackend] }) := by decide +kernel
  have hrefresh : Step (.start c) ⟨c, refresh c [], .refreshed⟩ := .refresh
  have hcheck : Step ⟨c, refresh c [], .refreshed⟩ ⟨c, r.1, .checked r.2⟩ :=
    .check ⟨fun _ => .answers [0x66] [0x30, 0x2f, 0x31], 0⟩
  have hlen : c.backends.length = r.1.length := by decide +kernel
  exact monitor_consistent loaded ((Relation.ReflTransGen.single hrefresh).tail hcheck |>.trans
    (publish_run r.2 hlen)) (fun _ _ => nofun)

end PgRouter.Watcher
