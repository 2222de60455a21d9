import PgRouter.Foundation.Locks

/-!
# Programs by whole sections

Threads that share a state, each of which also has a part of its own. What they share is looked at and
written to under one lock, `root`, which is taken before any other lock. From when a thread takes that
lock until it releases it, it is in a section.

## The model

The state is a pair: the part in common, and for each thread the part of its own. The program of a thread
is one over the common part and its own (`Program.zoom` makes it one over a larger state). It is `Guarded`
when it takes `root` first, looks at the common part in its sections only, and writes to it only in those
for which it has taken `root` alone. In the serial system (`Serial`) a thread runs a whole section in one
step (`Program.finish`), and there are no locks.

## What is proved

A section that does not write has no effect on the common part (`Guarded.finish_fst`). A property of the
common part, of what is each thread's own and of what is noted of each thread beside it, which every
section and every step outside keeps (`Program.Upholds`), holds in every state that the serial system
reaches (`Serial.reachable_induction`).
-/

namespace PgRouter.Foundation

universe u v w y z

variable {σ P Q : Type u} {τ : Type y} {L : Type v} {ι : Type w} {α β : Type z}

/-- The locks of a thread in a section for which it has taken `root` in the way `m`. -/
inductive Held.Inside (root : L) (m : Mode) : Held L → Prop
  /-- It has no other lock. -/
  | root : Inside root m [(root, m)]
  /-- It has taken one more. -/
  | inner {held : Held L} {l : L} {m' : Mode} (other : l ≠ root) (before : Inside root m held) :
      Inside root m ((l, m') :: held)

namespace Held.Inside

variable {root : L} {m : Mode} {held : Held L}

theorem ne_nil (h : Held.Inside root m held) : held ≠ [] := by
  cases h with
  | root => exact List.cons_ne_nil _ _
  | inner other before => exact List.cons_ne_nil _ _

/-- It has `root` in this way, and in no other. -/
theorem mem_iff (h : Held.Inside root m held) (m' : Mode) : (root, m') ∈ held ↔ m' = m := by
  induction h with
  | root => simp
  | inner other before ih => simp [other.symm, ih]

/-- When a lock is released, it was `root` and the section is over, or it was not and the section goes on. -/
theorem release {l : L} {m' : Mode} (h : Held.Inside root m ((l, m') :: held)) :
    l = root ∧ held = [] ∨ l ≠ root ∧ Held.Inside root m held := by
  cases h with
  | root => exact .inl ⟨rfl, rfl⟩
  | inner other before => exact .inr ⟨other, before⟩

end Held.Inside

namespace Program

/-- A program over a part of the state, as one over the state. -/
def zoom (view : τ → σ) (put : τ → σ → τ) : Program σ L α → Program τ L α
  | done a => done a
  | acquire m l k => acquire m l (k.zoom view put)
  | release l k => release l (k.zoom view put)
  | get k => get fun s => (k (view s)).zoom view put
  | modify f k => modify (fun s => put s (f (view s))) (k.zoom view put)
  | abort => abort

/-- One program after the other, on a part of the state. -/
@[simp] theorem zoom_bind (view : τ → σ) (put : τ → σ → τ) (p : Program σ L α) (g : α → Program σ L β) :
    (p.bind g).zoom view put = (p.zoom view put).bind fun a => (g a).zoom view put := by
  induction p with
  | done a => rfl
  | acquire m l k ih => exact congrArg (acquire m l) ih
  | release l k ih => exact congrArg (release l) ih
  | get k ih => exact congrArg get (funext fun s => ih (view s))
  | modify f k ih => exact congrArg (modify _) ih
  | abort => rfl

/-- Programs one after the other, however they are grouped. -/
theorem bind_assoc {γ : Type z} (p : Program σ L α) (g : α → Program σ L β) (h : β → Program σ L γ) :
    (p.bind g).bind h = p.bind fun a => (g a).bind h := by
  induction p with
  | done a => rfl
  | acquire m l k ih => exact congrArg (acquire m l) ih
  | release l k ih => exact congrArg (release l) ih
  | get k ih => exact congrArg get (funext fun s => ih s)
  | modify f k ih => exact congrArg (modify f) ih
  | abort => rfl

/-- A program after which nothing comes. -/
theorem bind_done (p : Program σ L α) : p.bind done = p := by
  induction p with
  | done a => rfl
  | acquire m l k ih => exact congrArg (acquire m l) ih
  | release l k ih => exact congrArg (release l) ih
  | get k ih => exact congrArg get (funext fun s => ih s)
  | modify f k ih => exact congrArg (modify f) ih
  | abort => rfl

/-- What a program on a part of the state does if no other thread interferes. -/
theorem run_zoom {view : τ → σ} {put : τ → σ → τ} (hview : ∀ s x, view (put s x) = x)
    (hput : ∀ s x y, put (put s x) y = put s y) (hself : ∀ s, put s (view s) = s) (p : Program σ L α) (s : τ) :
    (p.zoom view put).run s = (p.run (view s)).map fun (a, x) => (a, put s x) := by
  induction p generalizing s with
  | done a => simp [zoom, hself]
  | acquire m l k ih => exact ih s
  | release l k ih => exact ih s
  | get k ih => exact ih (view s) s
  | modify f k ih =>
    have h := ih (put s (f (view s)))
    simp only [hview, hput] at h
    exact h
  | abort => rfl

/-- The rest of a section, if no other thread interferes: what is to be done after it, and what becomes of
the state. -/
def finish [DecidableEq L] (root : L) : Program σ L α → σ → Program σ L α × σ
  | done a, s => (done a, s)
  | acquire _ _ k, s => k.finish root s
  | release l k, s => if l = root then (k, s) else k.finish root s
  | get k, s => (k s).finish root s
  | modify f k, s => k.finish root (f s)
  | abort, s => (abort, s)

/-- The program does not release the lock. -/
def Keeps (root : L) : Program σ L α → Prop
  | done _ => True
  | acquire _ _ k => k.Keeps root
  | release l k => l ≠ root ∧ k.Keeps root
  | get k => ∀ s, (k s).Keeps root
  | modify _ k => k.Keeps root
  | abort => True

variable {root : L}

theorem Keeps.bind {p : Program σ L α} {g : α → Program σ L β} (hp : p.Keeps root) (hg : ∀ a, (g a).Keeps root) :
    (p.bind g).Keeps root := by
  induction p with
  | done a => exact hg a
  | acquire m l k ih => exact ih hp
  | release l k ih => exact ⟨hp.1, ih hp.2⟩
  | get k ih => exact fun s => ih s (hp s)
  | modify f k ih => exact ih hp
  | abort => trivial

theorem Keeps.zoom {view : τ → σ} {put : τ → σ → τ} {p : Program σ L α} (hp : p.Keeps root) :
    (p.zoom view put).Keeps root := by
  induction p with
  | done a => trivial
  | acquire m l k ih => exact ih hp
  | release l k ih => exact ⟨hp.1, ih hp.2⟩
  | get k ih => exact fun s => ih _ (hp _)
  | modify f k ih => exact ih hp
  | abort => trivial

/-- The program releases the lock, and is over when it does. -/
def Closes (root : L) : Program σ L α → Prop
  | done _ => False
  | acquire _ _ k => k.Closes root
  | release l k => (l = root → ∃ a, k = done a) ∧ (l ≠ root → k.Closes root)
  | get k => ∀ s, (k s).Closes root
  | modify _ k => k.Closes root
  | abort => True

/-- What closes the section comes last. -/
theorem Keeps.closes {p : Program σ L α} {g : α → Program σ L β} (hp : p.Keeps root) (hg : ∀ a, (g a).Closes root) :
    (p.bind g).Closes root := by
  induction p with
  | done a => exact hg a
  | acquire m l k ih => exact ih hp
  | release l k ih => exact ⟨fun hl => absurd hl hp.1, fun _ => ih hp.2⟩
  | get k ih => exact fun s => ih s (hp s)
  | modify f k ih => exact ih hp
  | abort => trivial

/-- What a section returns can be made into another value. -/
theorem Closes.map {p : Program σ L α} (hp : p.Closes root) (f : α → β) : (p.bind fun a => done (f a)).Closes root := by
  induction p with
  | done a => exact hp.elim
  | acquire m l k ih => exact ih hp
  | release l k ih =>
    refine ⟨fun hl => ?_, fun hl => ih (hp.2 hl)⟩
    obtain ⟨a, rfl⟩ := hp.1 hl
    exact ⟨f a, rfl⟩
  | get k ih => exact fun s => ih s (hp s)
  | modify g k ih => exact ih hp
  | abort => trivial

/-- When a section is over, what comes after it is left. -/
theorem Closes.finish_bind [DecidableEq L] {p : Program σ L α} (hp : p.Closes root) {g : α → Program σ L β} {s s' : σ}
    {a : α} (hrun : p.run s = some (a, s')) : (p.bind g).finish root s = (g a, s') := by
  induction p generalizing s with
  | done b => exact hp.elim
  | acquire m l k ih => exact ih hp hrun
  | release l k ih =>
    change (if l = root then _ else _) = _
    split_ifs with hl
    · obtain ⟨b, rfl⟩ := hp.1 hl
      obtain ⟨rfl, rfl⟩ := Prod.mk.inj (Option.some.inj hrun)
      rfl
    · exact ih (hp.2 hl) hrun
  | get k ih => exact ih s (hp s) hrun
  | modify f k ih => exact ih hp hrun
  | abort => exact nomatch hrun

/-- The program is one section: it takes the lock, and is over when it releases it. -/
def IsSection (root : L) (p : Program σ L α) : Prop := ∃ m k, p = acquire m root k ∧ k.Closes root

/-- So is the program over a larger state. -/
theorem IsSection.zoom {p : Program σ L α} (hp : p.IsSection root) (view : τ → σ) (put : τ → σ → τ) :
    (p.zoom view put).IsSection root := by
  obtain ⟨m, k, rfl, hk⟩ := hp
  refine ⟨m, k.zoom view put, rfl, ?_⟩
  induction k with
  | done a => exact hk.elim
  | acquire m l k ih => exact ih hk
  | release l k ih =>
    refine ⟨fun hl => ?_, fun hl => ih (hk.2 hl)⟩
    obtain ⟨a, rfl⟩ := hk.1 hl
    exact ⟨a, rfl⟩
  | get k ih => exact fun s => ih _ (hk _)
  | modify f k ih => exact ih hk
  | abort => trivial

/-! ### Guarded programs -/

/-- The program looks at the common part and writes to it under the lock `root` only, when it begins with
the locks `held`, and ends with `held'`. -/
inductive Guarded (root : L) : Held L → Program (P × Q) L α → Held L → Prop
  /-- It ends with the locks that it has. -/
  | done {held : Held L} (a : α) : Guarded root held (done a) held
  /-- It takes `root`, and has no other lock. -/
  | enter {held' : Held L} {m : Mode} {k : Program (P × Q) L α} (next : Guarded root [(root, m)] k held') :
      Guarded root [] (acquire m root k) held'
  /-- It takes another lock, in a section. -/
  | inner {held held' : Held L} {m : Mode} {l : L} {k : Program (P × Q) L α} (other : l ≠ root) (inside : held ≠ [])
      (next : Guarded root ((l, m) :: held) k held') : Guarded root held (acquire m l k) held'
  /-- It releases its last lock. -/
  | release {held held' : Held L} {m : Mode} {l : L} {k : Program (P × Q) L α} (next : Guarded root held k held') :
      Guarded root ((l, m) :: held) (release l k) held'
  /-- What it does then does not depend on the common part, if it is in no section. -/
  | get {held held' : Held L} {k : P × Q → Program (P × Q) L α} (own : held = [] → ∀ p p' q, k (p, q) = k (p', q))
      (next : ∀ s, Guarded root held (k s) held') : Guarded root held (get k) held'
  /-- It writes to its own part, and to the common part if it has `root` alone. -/
  | modify {held held' : Held L} {f : P × Q → P × Q} {k : Program (P × Q) L α}
      (common : (root, .write) ∉ held → ∀ s, (f s).1 = s.1)
      (own : held = [] → ∀ p p' q, (f (p, q)).2 = (f (p', q)).2) (next : Guarded root held k held') :
      Guarded root held (modify f k) held'
  /-- A process that has ended has no locks. -/
  | abort {held held' : Held L} : Guarded root held abort held'

/-- The second program begins with the locks that the first has left. -/
theorem Guarded.bind {held held' held'' : Held L} {p : Program (P × Q) L α} {g : α → Program (P × Q) L β}
    (hp : Guarded root held p held') (hg : ∀ a, Guarded root held' (g a) held'') :
    Guarded root held (p.bind g) held'' := by
  induction hp with
  | done a => exact hg a
  | enter _ ih => exact .enter (ih hg)
  | inner other inside _ ih => exact .inner other inside (ih hg)
  | release _ ih => exact .release (ih hg)
  | get own _ ih =>
    refine .get (fun hnil p p' q => ?_) fun s => ih s hg
    rw [own hnil p p' q]
  | modify common own _ ih => exact .modify common own (ih hg)
  | abort => exact .abort

/-- A section for which `root` was taken together with other readers leaves the common part alone. -/
theorem Guarded.finish_fst [DecidableEq L] {held held' : Held L} {p : Program (P × Q) L α}
    (hp : Guarded root held p held') (inside : held.Inside root .read) (s : P × Q) : (p.finish root s).2.1 = s.1 := by
  induction hp generalizing s with
  | done a => rfl
  | enter _ _ => exact absurd rfl inside.ne_nil
  | inner other _ _ ih => exact ih (.inner other inside) s
  | @release held held' m l k _ ih =>
    change (if l = root then _ else _ : Program (P × Q) L α × (P × Q)).2.1 = _
    rcases inside.release with ⟨hl, -⟩ | ⟨hl, before⟩
    · rw [if_pos hl]
    · rw [if_neg hl]
      exact ih before s
  | get _ _ ih => exact ih s inside s
  | @modify held held' f k common _ _ ih =>
    have hread : (root, Mode.write) ∉ held := fun h => nomatch (inside.mem_iff .write).mp h
    exact (ih inside _).trans (common hread s)
  | abort => rfl

end Program

/-! ### The serial system -/

/-- A state of threads without locks. -/
structure Serial (P Q : Type u) (L : Type v) (ι : Type w) where
  /-- The common part of the shared state. -/
  common : P
  /-- The part of each thread. -/
  own : ι → Q
  /-- What each thread has still to do. -/
  code : ι → Program (P × Q) L Unit

namespace Serial

variable [DecidableEq ι]

/-- No thread has begun. -/
def start (p : P) (q : ι → Q) : Serial P Q L ι := ⟨p, q, fun _ => .done ()⟩

/-- A thread goes on with `code`, and has left the state `s`. -/
def goOn (X : Serial P Q L ι) (t : ι) (code : Program (P × Q) L Unit) (s : P × Q) : Serial P Q L ι :=
  ⟨s.1, Function.update X.own t s.2, Function.update X.code t code⟩

/-- What thread `t` can see. -/
def seen (X : Serial P Q L ι) (t : ι) : P × Q := (X.common, X.own t)

/-- A thread that waits where it is. -/
theorem goOn_self (X : Serial P Q L ι) (t : ι) : X.goOn t (X.code t) (X.seen t) = X := by
  simp [goOn, seen]

variable [DecidableEq L]

/-- A step of a thread, which may run the programs `programs` one after the other. -/
inductive Step (root : L) (programs : ι → Set (Program (P × Q) L Unit)) : Serial P Q L ι → Serial P Q L ι → Prop
  /-- It begins with its next program. -/
  | begin {X : Serial P Q L ι} {t : ι} {p : Program (P × Q) L Unit} (here : X.code t = .done ())
      (mem : p ∈ programs t) :
      Step root programs X (X.goOn t p (X.seen t))
  /-- It runs a whole section. -/
  | run {X : Serial P Q L ι} {t : ι} {m : Mode} {k : Program (P × Q) L Unit}
      (here : X.code t = .acquire m root k) :
      Step root programs X (X.goOn t (k.finish root (X.seen t)).1 (k.finish root (X.seen t)).2)
  /-- It looks at its own part. -/
  | get {X : Serial P Q L ι} {t : ι} {k : P × Q → Program (P × Q) L Unit} (here : X.code t = .get k) :
      Step root programs X (X.goOn t (k (X.seen t)) (X.seen t))
  /-- It writes to its own part. -/
  | modify {X : Serial P Q L ι} {t : ι} {f : P × Q → P × Q} {k : Program (P × Q) L Unit}
      (here : X.code t = .modify f k) : Step root programs X (X.goOn t k (f (X.seen t)))

/-- The states that can be reached by whole sections one after the other. -/
def Reachable (root : L) (programs : ι → Set (Program (P × Q) L Unit)) (p : P) (q : ι → Q) (X : Serial P Q L ι) :
    Prop :=
  Relation.ReflTransGen (Step root programs) (start p q) X

/-! ### Invariants -/

variable {Φ : Type z} {root : L} {programs : ι → Set (Program (P × Q) L Unit)} {I : P → (ι → Q × Φ) → Prop}
  {J : ι → Q × Φ → Prop}

/-- Thread `t` keeps the invariant `I` of the common part, of what each thread has of its own, and of what is
noted of it beside, while it runs a program from a state `a` of its own, and ends in one with `J`. -/
inductive Upholds (root : L) (I : P → (ι → Q × Φ) → Prop) (J : ι → Q × Φ → Prop) (t : ι) :
    Q × Φ → Program (P × Q) L Unit → Prop
  /-- It is over. -/
  | done {a : Q × Φ} (idle : J t a) : Upholds root I J t a (.done ())
  /-- It runs a section, after which `φ` is noted. -/
  | run {a : Q × Φ} {m : Mode} {k : Program (P × Q) L Unit} (φ : Φ)
      (keep : ∀ p s, I p s → s t = a →
        I (k.finish root (p, a.1)).2.1 (Function.update s t ((k.finish root (p, a.1)).2.2, φ)))
      (next : ∀ p s, I p s → s t = a →
        Upholds root I J t ((k.finish root (p, a.1)).2.2, φ) (k.finish root (p, a.1)).1) :
      Upholds root I J t a (.acquire m root k)
  /-- It looks at its own part. -/
  | get {a : Q × Φ} {k : P × Q → Program (P × Q) L Unit}
      (next : ∀ p s, I p s → s t = a → Upholds root I J t a (k (p, a.1))) : Upholds root I J t a (.get k)
  /-- It writes to its own part, after which `φ` is noted. -/
  | modify {a : Q × Φ} {f : P × Q → P × Q} {k : Program (P × Q) L Unit} (φ : Φ)
      (keep : ∀ p s, I p s → s t = a → I (f (p, a.1)).1 (Function.update s t ((f (p, a.1)).2, φ)))
      (next : ∀ p s, I p s → s t = a → Upholds root I J t ((f (p, a.1)).2, φ) k) :
      Upholds root I J t a (.modify f k)
  /-- A process that has ended does nothing. -/
  | abort {a : Q × Φ} : Upholds root I J t a .abort

/-- It runs a section that does not end the process, and then goes on. -/
theorem Upholds.of_section {α : Type} {t : ι} {a : Q × Φ} {p : Program (P × Q) L α} {g : α → Program (P × Q) L Unit}
    (hp : p.IsSection root) (φ : Φ)
    (h : ∀ p₀ s, I p₀ s → s t = a → ∃ x r, p.run (p₀, a.1) = some (x, r) ∧ I r.1 (Function.update s t (r.2, φ)) ∧
      Upholds root I J t (r.2, φ) (g x)) : Upholds root I J t a (p.bind g) := by
  obtain ⟨m, k, rfl, hk⟩ := hp
  refine .run φ (fun p₀ s hI hs => ?_) fun p₀ s hI hs => ?_
  · obtain ⟨x, r, hrun, hI', -⟩ := h p₀ s hI hs
    rwa [hk.finish_bind hrun]
  · obtain ⟨x, r, hrun, -, hnext⟩ := h p₀ s hI hs
    rwa [hk.finish_bind hrun]

/-- The invariant holds, and each thread will keep it. -/
structure Upheld (root : L) (I : P → (ι → Q × Φ) → Prop) (J : ι → Q × Φ → Prop) (X : Serial P Q L ι)
    (s : ι → Q × Φ) : Prop where
  /-- What the invariant is about. -/
  own : ∀ t, (s t).1 = X.own t
  /-- The invariant. -/
  invariant : I X.common s
  /-- What the threads will do. -/
  upholds : ∀ t, Upholds root I J t (s t) (X.code t)

/-- A thread goes on to what keeps the invariant. -/
theorem Upheld.goOn {X : Serial P Q L ι} {s : ι → Q × Φ} (h : Upheld root I J X s) {t : ι}
    {code : Program (P × Q) L Unit} {r : P × Q} {φ : Φ} (hI : I r.1 (Function.update s t (r.2, φ)))
    (ht : Upholds root I J t (r.2, φ) code) : Upheld root I J (X.goOn t code r) (Function.update s t (r.2, φ)) where
  own := by
    intro u
    by_cases hu : u = t
    · subst hu
      simp [Serial.goOn]
    · simpa [Serial.goOn, Function.update_of_ne hu] using h.own u
  invariant := hI
  upholds := by
    intro u
    by_cases hu : u = t
    · subst hu
      simpa [Serial.goOn] using ht
    · simpa [Serial.goOn, Function.update_of_ne hu] using h.upholds u

/-- **A step keeps the invariant.** -/
theorem Upheld.step (hprograms : ∀ t a, J t a → ∀ p ∈ programs t, Upholds root I J t a p) {X Y : Serial P Q L ι}
    {s : ι → Q × Φ} (h : Upheld root I J X s) (hstep : Step root programs X Y) :
    ∃ s', Upheld root I J Y s' := by
  -- what the thread that goes on can see
  have hseen : ∀ t, X.seen t = (X.common, (s t).1) := fun t => Prod.ext rfl (h.own t).symm
  cases hstep with
  | @begin t p here mem =>
    have ht := h.upholds t
    rw [here] at ht
    cases ht with
    | done idle =>
      rw [hseen]
      refine ⟨_, h.goOn (φ := (s t).2) ?_ (hprograms t _ idle p mem)⟩
      simpa using h.invariant
  | @run t m k here =>
    have ht := h.upholds t
    rw [here] at ht
    cases ht with
    | run φ keep next =>
      rw [hseen]
      exact ⟨_, h.goOn (keep _ _ h.invariant rfl) (next _ _ h.invariant rfl)⟩
  | @get t k here =>
    have ht := h.upholds t
    rw [here] at ht
    cases ht with
    | get next =>
      rw [hseen]
      refine ⟨_, h.goOn (φ := (s t).2) ?_ (next _ _ h.invariant rfl)⟩
      simpa using h.invariant
  | @modify t f k here =>
    have ht := h.upholds t
    rw [here] at ht
    cases ht with
    | modify φ keep next =>
      rw [hseen]
      exact ⟨_, h.goOn (keep _ _ h.invariant rfl) (next _ _ h.invariant rfl)⟩

/-- **What all threads keep holds in every state that can be reached.** -/
theorem reachable_induction (hprograms : ∀ t a, J t a → ∀ p ∈ programs t, Upholds root I J t a p) {p : P} {q : ι → Q}
    {φ : ι → Φ} (hI : I p fun t => (q t, φ t)) (hJ : ∀ t, J t (q t, φ t)) {X : Serial P Q L ι}
    (h : Reachable root programs p q X) : ∃ s, Upheld root I J X s := by
  induction h with
  | refl => exact ⟨fun t => (q t, φ t), fun _ => rfl, hI, fun t => .done (hJ t)⟩
  | tail _ hstep ih =>
    obtain ⟨s, hs⟩ := ih
    exact hs.step hprograms hstep

end Serial

end PgRouter.Foundation
