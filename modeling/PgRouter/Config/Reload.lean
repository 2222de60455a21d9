import PgRouter.Config.Complete
import PgRouter.Foundation.Heap

/-!
# Reloading the configuration

When it is told to, the router reads its configuration again. The settings that are read at start-up only and
the table of backends should stay, the others take the values in the new text. Two things go wrong. A setting
for the start-up is compared with the old one, which is `NULL` where the first text has none; only `listen`
and `monitor` have been completed by `pgr_context`. And the strings of the health checks are shared between
the context and the table of backends: when such a string is replaced in the context it is freed, and the
table is left with its address. `reload_framed_iff` says exactly when neither happens.

## The model

What `pgr_configure` does to the context is in `Config.Configure`, with strings as values. The strings of the
health checks have addresses as well (`Strings`), since they have two owners.
-/

namespace PgRouter.Config

open Foundation Wire Text

/-! ### Strings with two owners -/

/-- One of `health.database`, `health.username` and `health.password`, in the context and in the backends. -/
structure Strings where
  /-- The strings. -/
  heap : Heap CString
  /-- The address in the context, `none` for `NULL`. -/
  context : Option ℕ
  /-- The addresses in the table of backends. -/
  backends : List ℕ

namespace Strings

/-- The update of the context, with the value that the parser has set: its address, and what becomes of the
strings. -/
def update (m : Strings) : Option CString → Option ℕ × Strings
  | none => (none, m)
  | some s => (some m.heap.new, { m with heap := (m.heap.alloc s).free m.context, context := some m.heap.new })

/-- `get_str`, `a` being the default. -/
def getStr (a : CString) (h : Heap CString) : Option ℕ → ℕ × Heap CString
  | some b => (b, h)
  | none => (h.new, h.alloc a)

/-- The loop over the backends. -/
def fill (a : CString) (b : Option ℕ) : ℕ → Heap CString → List ℕ × Heap CString
  | 0, h => ([], h)
  | n + 1, h => ((getStr a h b).1 :: (fill a b n (getStr a h b).2).1, (fill a b n (getStr a h b).2).2)

/-- `pgr_configure` at the start, for `n` backends. -/
def start (a : CString) (value : Option CString) (n : ℕ) : Strings :=
  let (b, m) := update ⟨[], none, []⟩ value
  let (backends, heap) := fill a b n m.heap
  ⟨heap, m.context, backends⟩

/-- The strings are those of the context and of its backends. -/
def Represents (m : Strings) (v : Option CString) (bs : List (Option CString)) : Prop :=
  m.context.map m.heap.read = v.map some ∧ m.backends.map m.heap.read = bs

end Strings

/-! ### Starting and reloading -/

/-- The context, and the strings of the health checks. -/
structure State where
  /-- The context. -/
  context : Context
  /-- `health.database`. -/
  database : Strings
  /-- `health.username`. -/
  username : Strings
  /-- `health.password`. -/
  password : Strings

/-- The start of the router, `pgr_configure` and `pgr_context`, if it succeeds. -/
def start (text : List Octet) : Option State := do
  let (_, p) ← parseText text
  let (rc, c) ← pgrConfigure .zero text false
  if rc ≠ 0 then none
  return {
    context := pgrContext c
    database := .start (octets "postgres") p.healthDatabase c.backends.length
    username := .start (octets "postgres") p.healthUsername c.backends.length
    password := .start [] p.healthPassword c.backends.length }

/-- `pgr_configure` when reloading. -/
def reload (s : State) (text : List Octet) : Option (ℤ × State) := do
  let (rc, p) ← parseText text
  if rc ≠ 0 then return (rc, s)
  let (rc, c) ← pgrConfigure s.context text true
  return (rc,
    { context := c
      database := (s.database.update p.healthDatabase).2
      username := (s.username.update p.healthUsername).2
      password := (s.password.update p.healthPassword).2 })

/-- What should be kept, and what the strings should be. -/
structure Kept (s s' : State) : Prop where
  /-- The settings for the start-up. -/
  startup : s'.context.startup = s.context.startup
  /-- The file of the authentication database, which is one of them. -/
  authdbFile : s'.context.authdbFile = s.context.authdbFile
  /-- The backends. -/
  backends : s'.context.backends = s.context.backends
  /-- `health.database`. -/
  database : s'.database.Represents s'.context.healthDatabase (s'.context.backends.map Backend.healthDatabase)
  /-- `health.username`. -/
  username : s'.username.Represents s'.context.healthUsername (s'.context.backends.map Backend.healthUsername)
  /-- `health.password`. -/
  password : s'.password.Represents s'.context.healthPassword (s'.context.backends.map Backend.healthPassword)

/-- What should be taken from the text with the settings of `p`. -/
structure Taken (p : Parser) (c c' : Context) : Prop where
  /-- `workers`. -/
  workers : c'.workers = p.workers.getD c.workers
  /-- `log`. -/
  loglevel : c'.loglevel = p.loglevel.getD c.loglevel
  /-- `check`. -/
  healthInterval : c'.healthInterval = p.healthInterval.getD c.healthInterval
  /-- `timeout`. -/
  healthTimeout : c'.healthTimeout = p.healthTimeout.getD c.healthTimeout
  /-- `database`. -/
  healthDatabase : c'.healthDatabase = p.healthDatabase.or c.healthDatabase
  /-- `username`. -/
  healthUsername : c'.healthUsername = p.healthUsername.or c.healthUsername
  /-- `password`. -/
  healthPassword : c'.healthPassword = p.healthPassword.or c.healthPassword

/-- Reloading the text, with the settings of `p`, runs to completion and changes what it should. -/
def Framed (s : State) (text : List Octet) (p : Parser) : Prop :=
  ∃ s', reload s text = some (0, s') ∧ Kept s s' ∧ Taken p s.context s'.context

/-- The settings for the start-up that `pgr_context` does not complete. -/
def UNCOMPLETED : List (Parser → Option CString) :=
  [Parser.hbafile, Parser.pidfile, Parser.authdb, Parser.tlsCiphers, Parser.tlsCertfile, Parser.tlsKeyfile,
    Parser.user, Parser.group]

/-- The strings of the health checks. -/
def HEALTH : List (Parser → Option CString) := [Parser.healthDatabase, Parser.healthUsername, Parser.healthPassword]

/-- The second text can be loaded after the first one: it sets no setting for the start-up that the first one does
not set, and no string of the health checks that the first one sets, if there are backends. -/
structure Reloadable (p₁ p₂ : Parser) : Prop where
  /-- The settings for the start-up. -/
  startup : ∀ setting ∈ UNCOMPLETED, (setting p₂).isSome → (setting p₁).isSome
  /-- The strings of the health checks. -/
  health : ∀ setting ∈ HEALTH, (setting p₂).isSome → (setting p₁).isSome → p₁.backends.tail = []

/-! ### The strings -/

namespace Strings

variable {m : Strings} {v : Option CString} {bs : List (Option CString)} {a s : CString} {n : ℕ} {h : Heap CString}

theorem fill_some (a : CString) (b n : ℕ) (h : Heap CString) : fill a (some b) n h = (List.replicate n b, h) := by
  induction n with
  | zero => rfl
  | succ n ih => rw [fill, getStr, ih, List.replicate_succ]

/-- Without a value each backend has a string of its own. -/
theorem fill_none (a : CString) (n : ℕ) (h : Heap CString) :
    (fill a none n h).1.map (fill a none n h).2.read = List.replicate n (some a) ∧
      ∀ b < h.length, (fill a none n h).2.read b = h.read b := by
  induction n generalizing h with
  | zero => exact ⟨rfl, fun _ _ => rfl⟩
  | succ n ih =>
    obtain ⟨hread, hold⟩ := ih (h.alloc a)
    have hlen : (h.alloc a).length = h.length + 1 := by rw [Heap.alloc, List.length_append, List.length_singleton]
    simp only [fill, getStr, List.map_cons, List.replicate_succ]
    refine ⟨?_, fun b hb => ?_⟩
    · rw [hread, hold _ (by rw [hlen, Heap.new]; exact Nat.lt_succ_self _), Heap.read_alloc_new]
    · rw [hold b (by omega), Heap.read_alloc_of_lt a hb]

/-- At the start the strings are right. -/
theorem start_represents (a : CString) (v : Option CString) (n : ℕ) :
    (start a v n).Represents v (List.replicate n (some (v.getD a))) := by
  cases v with
  | none =>
    obtain ⟨hread, -⟩ := fill_none a n []
    exact ⟨rfl, hread⟩
  | some s =>
    simp only [start, update, fill_some]
    refine ⟨rfl, ?_⟩
    rw [List.map_replicate]
    rfl

theorem start_context (a : CString) (v : Option CString) (n : ℕ) : (start a v n).context = v.map fun _ => 0 := by
  cases v <;> rfl

theorem start_backends (a s : CString) (n : ℕ) : (start a (some s) n).backends = List.replicate n 0 := by
  simp only [start, update, fill_some]
  rfl

/-- Reloading keeps them right, if no string is replaced that is in the table. -/
theorem update_represents_iff (a : CString) (v new : Option CString) (n : ℕ) :
    ((start a v n).update new).2.Represents (new.or v) (List.replicate n (some (v.getD a))) ↔
      (new.isSome → v.isSome → n = 0) := by
  obtain ⟨hcontext, hbackends⟩ := start_represents a v n
  cases new with
  | none => exact ⟨fun _ h => absurd h (by simp), fun _ => ⟨hcontext, hbackends⟩⟩
  | some s =>
    cases v with
    | none =>
      -- nothing is freed
      refine ⟨fun _ _ h => absurd h (by simp), fun _ => ⟨?_, ?_⟩⟩
      · exact congrArg some (Heap.read_alloc_new _ s)
      · rw [← hbackends]
        refine List.map_congr_left fun b hb => Heap.read_alloc_of_lt s ?_
        obtain ⟨x, hx⟩ : ∃ x, (start a none n).heap.read b = some x := by
          have hold : b ∈ (start a none n).backends := hb
          have hmem := List.mem_map_of_mem (f := (start a none n).heap.read) hold
          rw [hbackends] at hmem
          exact ⟨_, List.eq_of_mem_replicate hmem⟩
        exact Heap.lt_of_read hx
    | some s₀ =>
      have hfreed : ((start a (some s₀) n).update (some s)).2.backends.map
          ((start a (some s₀) n).update (some s)).2.heap.read = List.replicate n none := by
        simp only [update, start_context, start_backends, Option.map_some, List.map_replicate, Heap.read_free_self]
      constructor
      · rintro ⟨-, hread⟩ - -
        rw [hfreed] at hread
        cases n with
        | zero => rfl
        | succ n =>
          rw [List.replicate_succ, List.replicate_succ] at hread
          cases (List.cons.inj hread).1
      · intro hzero
        obtain rfl : n = 0 := hzero rfl rfl
        exact ⟨rfl, rfl⟩

end Strings

/-! ### The context -/

variable {text text₁ text₂ : List Octet} {p p₁ p₂ : Parser} {c c' : Context} {s s' : State}

/-- When reloading, the settings for the start-up stay, if each of them that is set has an old value. Otherwise `NULL`
is compared. -/
theorem updateStartup_reload_iff : updateStartup true c p = some c' ↔ c' = c ∧
    ∀ x ∈ [(p.listen, c.startup.frontend), (p.monitor, c.startup.monitor), (p.hbafile, c.startup.hbafile),
      (p.pidfile, c.startup.pidfile), (p.authdb, c.authdbFile), (p.tlsCiphers, c.startup.tlsCiphers),
      (p.tlsCertfile, c.startup.tlsCertfile), (p.tlsKeyfile, c.startup.tlsKeyfile), (p.user, c.startup.user),
      (p.group, c.startup.group)], x.1.isSome → x.2.isSome := by
  simp only [updateStartup, startupOnly_reload, Option.bind_eq_bind, Option.bind_eq_some_iff,
    Option.ite_none_right_eq_some, List.forall_mem_cons]
  constructor
  · rintro ⟨_, ⟨h1, ⟨⟩⟩, _, ⟨h2, ⟨⟩⟩, _, ⟨h3, ⟨⟩⟩, _, ⟨h4, ⟨⟩⟩, _, ⟨h5, ⟨⟩⟩, _, ⟨h6, ⟨⟩⟩, _, ⟨h7, ⟨⟩⟩, _, ⟨h8, ⟨⟩⟩,
      _, ⟨h9, ⟨⟩⟩, _, ⟨h10, ⟨⟩⟩, h⟩
    exact ⟨(Option.some.inj h).symm, h1, h2, h3, h4, h5, h6, h7, h8, h9, h10, fun x hx => absurd hx List.not_mem_nil⟩
  · rintro ⟨rfl, h1, h2, h3, h4, h5, h6, h7, h8, h9, h10, -⟩
    exact ⟨_, ⟨h1, rfl⟩, _, ⟨h2, rfl⟩, _, ⟨h3, rfl⟩, _, ⟨h4, rfl⟩, _, ⟨h5, rfl⟩, _, ⟨h6, rfl⟩, _, ⟨h7, rfl⟩, _,
      ⟨h8, rfl⟩, _, ⟨h9, rfl⟩, _, ⟨h10, rfl⟩, rfl⟩

/-- What a context is after the start, with the settings of `p`. -/
structure Configured (p : Parser) (c : Context) : Prop where
  /-- The settings for the start-up. -/
  startup : c.startup = ⟨p.listen, p.monitor, p.hbafile, p.pidfile, p.tlsCiphers, p.tlsCertfile, p.tlsKeyfile, p.user,
    p.group⟩
  /-- The file of the authentication database. -/
  authdbFile : c.authdbFile = p.authdb
  /-- The strings of the health checks. -/
  health : (c.healthDatabase, c.healthUsername, c.healthPassword) =
    (p.healthDatabase, p.healthUsername, p.healthPassword)
  /-- The backends. -/
  length : c.backends.length = p.backends.tail.length
  /-- `health.database`. -/
  database : c.backends.map Backend.healthDatabase =
    List.replicate c.backends.length (some (p.healthDatabase.getD (octets "postgres")))
  /-- `health.username`. -/
  username : c.backends.map Backend.healthUsername =
    List.replicate c.backends.length (some (p.healthUsername.getD (octets "postgres")))
  /-- `health.password`. -/
  password : c.backends.map Backend.healthPassword = List.replicate c.backends.length (some (p.healthPassword.getD []))

theorem configured (hparse : parseText text = some (0, p))
    (h : pgrConfigure .zero text false = some (0, c)) : Configured p c := by
  simp only [pgrConfigure, hparse, updateStartup, startupOnly_start, Option.bind_eq_bind, Option.bind_some, ne_eq,
    not_true, if_false, Bool.false_eq_true] at h
  obtain ⟨hrc, rfl⟩ := Prod.mk.inj (Option.some.inj h)
  have hfill := fillAll_ok hrc
  have hmap : ∀ {g : Backend → Option CString} {v : Option CString}, (∀ d b x, g (Config.fill p d b x) = v) →
      (fillAll p (p.backends.headD (makeBackend none)) p.backends.tail).2.map g =
        List.replicate (fillAll p (p.backends.headD (makeBackend none)) p.backends.tail).2.length v := by
    intro g v hv
    rw [hfill, List.map_map, List.length_map, ← List.map_const']
    exact List.map_congr_left fun b _ => hv _ b _
  exact {
    startup := by simp only [update, Context.zero, Option.or_none]
    authdbFile := by simp only [update, Context.zero, Option.or_none]
    health := by simp only [update, Context.zero, Option.or_none]
    length := by rw [hfill, List.length_map]
    database := hmap fun _ _ _ => rfl
    username := hmap fun _ _ _ => rfl
    password := hmap fun _ _ _ => rfl }

/-- What the start leads to. -/
theorem start_eq (hparse : parseText text = some (0, p)) (h : start text = some s) :
    ∃ c, Configured p c ∧ s =
      { context := pgrContext c
        database := .start (octets "postgres") p.healthDatabase c.backends.length
        username := .start (octets "postgres") p.healthUsername c.backends.length
        password := .start [] p.healthPassword c.backends.length } := by
  obtain ⟨⟨rc₀, p'⟩, hp', h⟩ := Option.bind_eq_some_iff.mp h
  obtain ⟨⟨rc, c⟩, hc, h⟩ := Option.bind_eq_some_iff.mp h
  obtain rfl : p = p' := (Prod.mk.inj (Option.some.inj (hparse.symm.trans hp'))).2
  by_cases hrc : rc = 0
  · subst hrc
    exact ⟨c, configured hparse hc, (Option.some.inj h).symm⟩
  · simp [hrc] at h

/-- Reloading, in terms of the settings of the text. -/
theorem reload_eq (hparse : parseText text = some (0, p)) (s : State) :
    reload s text = (updateStartup true (update s.context p) p).map fun c => (0,
      { context := c
        database := (s.database.update p.healthDatabase).2
        username := (s.username.update p.healthUsername).2
        password := (s.password.update p.healthPassword).2 }) := by
  simp only [reload, pgrConfigure, hparse, Option.bind_eq_bind, Option.bind_some, ne_eq, not_true, if_false]
  cases updateStartup true (update s.context p) p <;> rfl

theorem pgrContext_map (c : Context) {g : Backend → Option CString} (hg : ∀ b x, g { b with status := x } = g b) :
    (pgrContext c).backends.map g = c.backends.map g := by
  rw [pgrContext, List.map_map]
  exact List.map_congr_left fun b _ => hg b _

/-- One of the strings after reloading. -/
theorem strings_iff {g : Backend → Option CString} (hg : ∀ b x, g { b with status := x } = g b) {a : CString}
    {v : Option CString} (new : Option CString) (hc : Configured p₁ c)
    (hmap : c.backends.map g = List.replicate c.backends.length (some (v.getD a))) :
    ((Strings.start a v c.backends.length).update new).2.Represents (new.or v) ((pgrContext c).backends.map g) ↔
      (new.isSome → v.isSome → p₁.backends.tail = []) := by
  rw [pgrContext_map c hg, hmap, Strings.update_represents_iff, hc.length, List.length_eq_zero_iff]

/-- Reloading with the settings of `p₂`: the two addresses to listen on always have an old value. -/
theorem updateStartup_configured_iff (hc : Configured p₁ c) :
    updateStartup true (update (pgrContext c) p₂) p₂ = some c' ↔ c' = update (pgrContext c) p₂ ∧
      ∀ setting ∈ UNCOMPLETED, (setting p₂).isSome → (setting p₁).isSome := by
  simp only [updateStartup_reload_iff, update, pgrContext, hc.startup, hc.authdbFile, UNCOMPLETED,
    List.forall_mem_cons, Option.isSome_some, implies_true, true_and, List.not_mem_nil, false_imp_iff]

/-- When the second text can be loaded, `pgr_configure` runs to completion and changes what it should. Otherwise it
does not. -/
theorem reload_framed_iff (h₁ : parseText text₁ = some (0, p₁)) (hstart : start text₁ = some s)
    (h₂ : parseText text₂ = some (0, p₂)) :
    Framed s text₂ p₂ ↔ Reloadable p₁ p₂ := by
  obtain ⟨c, hc, rfl⟩ := start_eq h₁ hstart
  have hdatabase := strings_iff (fun _ _ => rfl) p₂.healthDatabase hc hc.database
  have husername := strings_iff (fun _ _ => rfl) p₂.healthUsername hc hc.username
  have hpassword := strings_iff (fun _ _ => rfl) p₂.healthPassword hc hc.password
  obtain ⟨hdb, huser, hpass⟩ : c.healthDatabase = p₁.healthDatabase ∧ c.healthUsername = p₁.healthUsername ∧
      c.healthPassword = p₁.healthPassword := by
    have hhealth := hc.health
    simpa only [Prod.mk.injEq] using hhealth
  rw [Framed, reload_eq h₂]
  constructor
  · rintro ⟨s', hs', hkept, -⟩
    obtain ⟨c', hc', heq⟩ := Option.map_eq_some_iff.mp hs'
    obtain ⟨-, rfl⟩ := Prod.mk.inj heq
    obtain ⟨rfl, hisSome⟩ := (updateStartup_configured_iff hc).mp hc'
    have h1 := hkept.database
    have h2 := hkept.username
    have h3 := hkept.password
    simp only [update, pgrContext, hdb, huser, hpass] at h1 h2 h3
    refine ⟨hisSome, ?_⟩
    simp only [HEALTH, List.forall_mem_cons]
    exact ⟨hdatabase.mp h1, husername.mp h2, hpassword.mp h3, fun x hx => absurd hx List.not_mem_nil⟩
  · intro h
    have hhealth := h.health
    simp only [HEALTH, List.forall_mem_cons, List.not_mem_nil, false_imp_iff, implies_true] at hhealth
    rw [(updateStartup_configured_iff hc).mpr ⟨rfl, h.startup⟩]
    refine ⟨_, rfl, ⟨rfl, rfl, rfl, ?_, ?_, ?_⟩, ⟨rfl, rfl, rfl, rfl, rfl, rfl, rfl⟩⟩
    · simp only [update, pgrContext, hdb]
      exact hdatabase.mpr hhealth.1
    · simp only [update, pgrContext, huser]
      exact husername.mpr hhealth.2.1
    · simp only [update, pgrContext, hpass]
      exact hpassword.mpr hhealth.2.2.1

/-- A user, and nothing else. -/
def userConfig : List Octet := octets "user x "

/-- A string of the health checks, and a backend. -/
def healthConfig : List Octet := octets "health \x7b username x \x7d backend y \x7b \x7d "

/-- A user and workers may be set again. -/
theorem reload_framed_user :
    ∃ s, start userConfig = some s ∧ Framed s (octets "workers 3 user z ")
      { parserInit with workers := some 3, user := some (octets "z"), f := none } := by
  obtain ⟨s, hs⟩ := Option.isSome_iff_exists.mp
    (by decide +kernel : (start userConfig).isSome = true)
  have h₁ : parseText userConfig =
      some (0, { parserInit with user := some (octets "x"), f := none }) := by decide +kernel
  have h₂ : parseText (octets "workers 3 user z ") =
      some (0, { parserInit with workers := some 3, user := some (octets "z"), f := none }) := by decide +kernel
  exact ⟨s, hs, (reload_framed_iff h₁ hs h₂).mpr ⟨by decide +kernel, by decide +kernel⟩⟩

/-- A user may not be set if the first text has none: the router crashes. If a string of the health checks is set
again, the table of backends is left with the address of a string that is freed. -/
theorem not_framed :
    (Completes userConfig ∧ ∃ s, start [] = some s ∧
      reload s userConfig = none ∧ ∀ p, ¬Framed s userConfig p) ∧
    (Completes (octets "health \x7b username z \x7d ") ∧ ∃ s, start healthConfig = some s ∧
      ∃ s', reload s (octets "health \x7b username z \x7d ") = some (0, s') ∧
        s'.username.backends.map s'.username.heap.read = [none] ∧ ¬Kept s s') := by
  refine ⟨⟨completes_of_succeeds (n := 5) (by decide +kernel), ?_⟩,
    completes_of_succeeds (n := 5) (by decide +kernel), ?_⟩
  · obtain ⟨s, hs⟩ := Option.isSome_iff_exists.mp (by decide +kernel : (start []).isSome = true)
    have hnone : ((start []).bind fun s => reload s userConfig).isNone = true := by
      decide +kernel
    rw [hs, Option.bind_some, Option.isNone_iff_eq_none] at hnone
    refine ⟨s, hs, hnone, fun p hframed => ?_⟩
    obtain ⟨s', hs', -⟩ := hframed
    rw [hnone] at hs'
    cases hs'
  · have hread : ((start healthConfig).bind fun s =>
        (reload s (octets "health \x7b username z \x7d ")).map fun x =>
          (x.1, x.2.username.backends.map x.2.username.heap.read, x.2.context.backends.map Backend.healthUsername)) =
        some (0, [none], [some (octets "x")]) := by decide +kernel
    obtain ⟨s, hs, hmap⟩ := Option.bind_eq_some_iff.mp hread
    obtain ⟨⟨rc, s'⟩, hs', heq⟩ := Option.map_eq_some_iff.mp hmap
    obtain ⟨rfl, hfreed, hold⟩ : rc = 0 ∧ s'.username.backends.map s'.username.heap.read = [none] ∧
        s'.context.backends.map Backend.healthUsername = [some (octets "x")] := by
      simpa only [Prod.mk.injEq] using heq
    refine ⟨s, hs, s', hs', hfreed, fun hkept => ?_⟩
    have hstring := hkept.username.2
    rw [hfreed, hold] at hstring
    cases hstring

end PgRouter.Config
