import Mathlib.Data.Set.Basic
import Mathlib.Logic.Function.Basic
import Mathlib.Logic.Relation

/-!
# Threads and read/write locks

Threads that share a state and take read/write locks, each one program after the other. A program
(`Program`) is a tree of actions. The threads take turns in any order (`Step`), and a lock is granted
whenever nobody has it in conflict. That a waiting writer may keep new readers out does not lead to
further states: it is said of what a thread waits for (`BlockedBy`). A thread that ends the process stays
where it is; that the others can still take steps then leads to more states, not to fewer.

## What is proved

A discipline says which locks may be taken when which are held. A program that keeps to it and releases
what it takes is `Balanced`, which is shown of it along its structure. Where all programs are, every
thread is at any time about to do what the discipline allows (`reachable_disciplined`). Where the discipline
takes locks in the order of a rank, no set of threads is deadlocked (`not_deadlocked`), and every thread
that waits does so in the end for one that can go on (`exists_not_blocked`).
-/

namespace PgRouter.Foundation

universe u v w

/-- How a lock is taken. -/
inductive Mode where
  /-- Together with other readers. -/
  | read
  /-- Alone. -/
  | write
  deriving DecidableEq

/-- Two threads cannot have a lock in these ways at the same time. -/
def Mode.Conflict (m m' : Mode) : Prop := m = .write ∨ m' = .write

instance (m m' : Mode) : Decidable (m.Conflict m') := inferInstanceAs (Decidable (_ ∨ _))

/-- A program over a shared state and locks. -/
inductive Program (σ : Type u) (L : Type v) (α : Type w) where
  /-- It is over. -/
  | done (a : α)
  /-- It takes a lock. -/
  | acquire (m : Mode) (l : L) (k : Program σ L α)
  /-- It releases a lock. -/
  | release (l : L) (k : Program σ L α)
  /-- It reads the shared state. -/
  | get (k : σ → Program σ L α)
  /-- It writes to the shared state. -/
  | modify (f : σ → σ) (k : Program σ L α)
  /-- It ends the process. -/
  | abort

/-- The locks that a thread has, with the last one that it has taken at the head. -/
abbrev Held (L : Type v) := List (L × Mode)

namespace Program

variable {σ : Type u} {L : Type v} {α β : Type w}

/-- One program after the other. -/
def bind : Program σ L α → (α → Program σ L β) → Program σ L β
  | done a, g => g a
  | acquire m l k, g => acquire m l (k.bind g)
  | release l k, g => release l (k.bind g)
  | get k, g => get fun s => (k s).bind g
  | modify f k, g => modify f (k.bind g)
  | abort, _ => abort

instance : Monad (Program σ L) where
  pure := done
  bind := bind

/-- What the program returns and what becomes of the shared state if no other thread interferes. -/
def run : Program σ L α → σ → Option (α × σ)
  | done a, s => some (a, s)
  | acquire _ _ k, s => k.run s
  | release _ k, s => k.run s
  | get k, s => (k s).run s
  | modify f k, s => k.run (f s)
  | abort, _ => none

@[simp] theorem pure_eq (a : α) : (pure a : Program σ L α) = done a := rfl

@[simp] theorem bind_eq (p : Program σ L α) (g : α → Program σ L β) : (p >>= g) = p.bind g := rfl

@[simp] theorem run_done (a : α) (s : σ) : (done a : Program σ L α).run s = some (a, s) := rfl

@[simp] theorem run_acquire (m : Mode) (l : L) (k : Program σ L α) (s : σ) : (acquire m l k).run s = k.run s := rfl

@[simp] theorem run_release (l : L) (k : Program σ L α) (s : σ) : (release l k).run s = k.run s := rfl

@[simp] theorem run_get (k : σ → Program σ L α) (s : σ) : (get k).run s = (k s).run s := rfl

@[simp] theorem run_modify (f : σ → σ) (k : Program σ L α) (s : σ) : (modify f k).run s = k.run (f s) := rfl

/-- The second program begins with what the first has left. -/
@[simp] theorem run_bind (p : Program σ L α) (g : α → Program σ L β) (s : σ) :
    (p.bind g).run s = (p.run s).bind fun (a, s) => (g a).run s := by
  induction p generalizing s with
  | done a => rfl
  | acquire m l k ih => exact ih s
  | release l k ih => exact ih s
  | get k ih => exact ih s s
  | modify f k ih => exact ih (f s)
  | abort => rfl

/-! ### Keeping to a discipline -/

/-- The program keeps to a discipline when it begins with the locks `held`, and ends with `held'`. It
releases the lock that it has taken last. -/
inductive Balanced (may : Held L → L → Prop) : Held L → Program σ L α → Held L → Prop
  /-- It ends with the locks that it has. -/
  | done {held : Held L} (a : α) : Balanced may held (done a) held
  /-- It takes a lock that it may take. -/
  | acquire {held held' : Held L} {m : Mode} {l : L} {k : Program σ L α} (allowed : may held l)
      (next : Balanced may ((l, m) :: held) k held') : Balanced may held (acquire m l k) held'
  /-- It releases its last lock. -/
  | release {held held' : Held L} {m : Mode} {l : L} {k : Program σ L α} (next : Balanced may held k held') :
      Balanced may ((l, m) :: held) (release l k) held'
  /-- It does so whatever it reads. -/
  | get {held held' : Held L} {k : σ → Program σ L α} (next : ∀ s, Balanced may held (k s) held') :
      Balanced may held (get k) held'
  /-- It has the same locks after it has written. -/
  | modify {held held' : Held L} {f : σ → σ} {k : Program σ L α} (next : Balanced may held k held') :
      Balanced may held (modify f k) held'
  /-- A process that has ended has no locks. -/
  | abort {held held' : Held L} : Balanced may held abort held'

/-- The second program begins with the locks that the first has left. -/
theorem Balanced.bind {may : Held L → L → Prop} {held held' held'' : Held L} {p : Program σ L α}
    {g : α → Program σ L β} (hp : Balanced may held p held') (hg : ∀ a, Balanced may held' (g a) held'') :
    Balanced may held (p.bind g) held'' := by
  induction hp with
  | done a => exact hg a
  | acquire allowed _ ih => exact .acquire allowed (ih hg)
  | release _ ih => exact .release (ih hg)
  | get _ ih => exact .get fun s => ih s hg
  | modify _ ih => exact .modify (ih hg)
  | abort => exact .abort

end Program

/-! ### Threads -/

variable {σ : Type u} {L : Type v} {ι : Type w}

/-- A thread. -/
structure Thread (σ : Type u) (L : Type v) where
  /-- The locks that it has. -/
  held : Held L
  /-- What it has still to do. -/
  code : Program σ L Unit

/-- A state of all threads. -/
structure Threads (σ : Type u) (L : Type v) (ι : Type w) where
  /-- The shared state. -/
  shared : σ
  /-- The threads. -/
  thread : ι → Thread σ L

namespace Threads

/-- No thread has begun. -/
def start (s : σ) : Threads σ L ι := ⟨s, fun _ => ⟨[], .done ()⟩⟩

/-- Thread `t` waits for a lock, and cannot have it before thread `u` goes on: `u` has it in conflict, or
`t` is a reader and `u` a waiting writer. -/
def BlockedBy (x : Threads σ L ι) (t u : ι) : Prop :=
  ∃ m l k, (x.thread t).code = .acquire m l k ∧
    ((∃ m', (l, m') ∈ (x.thread u).held ∧ m.Conflict m') ∨
      (m = .read ∧ ∃ k', (x.thread u).code = .acquire .write l k'))

/-- Each of these threads is blocked by one of them. -/
def Deadlocked (x : Threads σ L ι) (S : Set ι) : Prop := S.Nonempty ∧ ∀ t ∈ S, ∃ u ∈ S, x.BlockedBy t u

end Threads

/-! ### Threads that keep to a discipline -/

/-- Each lock was taken when the discipline allowed it. -/
inductive Held.Allowed (may : Held L → L → Prop) : Held L → Prop
  /-- No lock is held. -/
  | nil : Allowed may []
  /-- One more lock is. -/
  | cons {held : Held L} {l : L} {m : Mode} (allowed : may held l) (before : Allowed may held) :
      Allowed may ((l, m) :: held)

/-- A thread that keeps to the discipline. -/
structure Thread.Disciplined (may : Held L → L → Prop) (t : Thread σ L) : Prop where
  /-- It has taken its locks as it may. -/
  allowed : Held.Allowed may t.held
  /-- It will go on so, and have none in the end. -/
  balanced : t.code.Balanced may t.held []

variable {may : Held L → L → Prop}

theorem Held.Allowed.tail {held : Held L} {p : L × Mode} (h : Held.Allowed may (p :: held)) :
    Held.Allowed may held := by
  cases h with
  | cons _ before => exact before

namespace Thread.Disciplined

/-- It takes a lock that it may take. -/
theorem may_of_acquire {t : Thread σ L} (h : t.Disciplined may) {m : Mode} {l : L} {k : Program σ L Unit}
    (hcode : t.code = .acquire m l k) : may t.held l := by
  obtain ⟨held, code⟩ := t
  obtain rfl : code = _ := hcode
  cases h.balanced with
  | acquire allowed _ => exact allowed

/-- It releases the lock that it has taken last. -/
theorem head?_of_release {t : Thread σ L} (h : t.Disciplined may) {l : L} {k : Program σ L Unit}
    (hcode : t.code = .release l k) : ∃ m, t.held.head? = some (l, m) := by
  obtain ⟨held, code⟩ := t
  obtain rfl : code = _ := hcode
  cases h.balanced with
  | @release held held' m => exact ⟨m, rfl⟩

/-- It has released everything when it is over. -/
theorem held_of_done {t : Thread σ L} (h : t.Disciplined may) (hcode : t.code = .done ()) : t.held = [] := by
  obtain ⟨held, code⟩ := t
  obtain rfl : code = _ := hcode
  cases h.balanced with
  | done => rfl

end Thread.Disciplined

/-! ### How far a waiting thread has come -/

/-- How far a waiting thread has come: the rank of the lock that it waits for, and a writer is ahead of
a reader. -/
def Thread.level (rank : L → ℕ) (t : Thread σ L) : ℕ :=
  match t.code with
  | .acquire m l _ => 2 * rank l + (if m = .write then 1 else 0)
  | _ => 0

/-- A waiting thread that blocks another has come further. -/
theorem Threads.BlockedBy.level_lt {rank : L → ℕ} (hrank : ∀ held l, may held l → ∀ p ∈ held, rank p.1 < rank l)
    {x : Threads σ L ι} {t u v : ι} (hu : (x.thread u).Disciplined may) (htu : x.BlockedBy t u)
    (huv : x.BlockedBy u v) : (x.thread t).level rank < (x.thread u).level rank := by
  obtain ⟨m, l, k, ht, hblock⟩ := htu
  obtain ⟨m', l', k', hcode, -⟩ := huv
  have hlevel : (x.thread t).level rank = 2 * rank l + if m = .write then 1 else 0 := by rw [Thread.level, ht]
  have hlevel' : (x.thread u).level rank = 2 * rank l' + if m' = .write then 1 else 0 := by rw [Thread.level, hcode]
  rcases hblock with ⟨m₀, hmem, -⟩ | ⟨rfl, k₀, hwriter⟩
  · -- the other thread has the lock, and waits for one behind it
    have hlt := hrank _ _ (hu.may_of_acquire hcode) _ hmem
    dsimp only at hlt
    split_ifs at hlevel <;> omega
  · -- both wait for the same lock
    rw [hcode] at hwriter
    obtain ⟨rfl, rfl, -⟩ := Program.acquire.inj hwriter
    rw [hlevel, hlevel']
    simp

/-! ### Steps -/

variable [DecidableEq ι]

namespace Threads

/-- A thread goes on. -/
def goOn (x : Threads σ L ι) (t : ι) (held : Held L) (code : Program σ L Unit) : Threads σ L ι :=
  { x with thread := Function.update x.thread t ⟨held, code⟩ }

theorem goOn_self (x : Threads σ L ι) (t : ι) (held : Held L) (code : Program σ L Unit) :
    (x.goOn t held code).thread t = ⟨held, code⟩ := Function.update_self ..

theorem goOn_of_ne {x : Threads σ L ι} {t u : ι} (h : u ≠ t) (held : Held L) (code : Program σ L Unit) :
    (x.goOn t held code).thread u = x.thread u := Function.update_of_ne h ..

/-- When one thread goes on and keeps to the discipline, all still do. -/
theorem goOn_disciplined {x : Threads σ L ι} (h : ∀ u, (x.thread u).Disciplined may) {t : ι} {held : Held L}
    {code : Program σ L Unit} (ht : Thread.Disciplined may ⟨held, code⟩) (u : ι) :
    ((x.goOn t held code).thread u).Disciplined may := by
  by_cases hu : u = t
  · subst hu
    rwa [goOn_self]
  · rw [goOn_of_ne hu]
    exact h u

variable [DecidableEq L] {programs : ι → Set (Program σ L Unit)}

/-- A step of a thread, which may run the programs `programs` one after the other. -/
inductive Step (programs : ι → Set (Program σ L Unit)) : Threads σ L ι → Threads σ L ι → Prop
  /-- It begins with its next program. -/
  | begin {x : Threads σ L ι} {t : ι} {held : Held L} {p : Program σ L Unit}
      (here : x.thread t = ⟨held, .done ()⟩) (mem : p ∈ programs t) : Step programs x (x.goOn t held p)
  /-- It takes a lock that nobody has in conflict. -/
  | acquire {x : Threads σ L ι} {t : ι} {held : Held L} {m : Mode} {l : L} {k : Program σ L Unit}
      (here : x.thread t = ⟨held, .acquire m l k⟩) (free : ∀ u m', (l, m') ∈ (x.thread u).held → ¬ m.Conflict m') :
      Step programs x (x.goOn t ((l, m) :: held) k)
  /-- It releases a lock. -/
  | release {x : Threads σ L ι} {t : ι} {held : Held L} {l : L} {k : Program σ L Unit}
      (here : x.thread t = ⟨held, .release l k⟩) : Step programs x (x.goOn t (held.eraseP fun p => p.1 = l) k)
  /-- It reads the shared state. -/
  | get {x : Threads σ L ι} {t : ι} {held : Held L} {k : σ → Program σ L Unit}
      (here : x.thread t = ⟨held, .get k⟩) : Step programs x (x.goOn t held (k x.shared))
  /-- It writes to the shared state. -/
  | modify {x : Threads σ L ι} {t : ι} {held : Held L} {f : σ → σ} {k : Program σ L Unit}
      (here : x.thread t = ⟨held, .modify f k⟩) :
      Step programs x { x.goOn t held k with shared := f x.shared }

/-- The states that can be reached. -/
def Reachable (programs : ι → Set (Program σ L Unit)) (s : σ) (x : Threads σ L ι) : Prop :=
  Relation.ReflTransGen (Step programs) (start s) x

/-- The lock that was taken last is released. -/
theorem eraseP_last (held : Held L) (l : L) (m : Mode) : ((l, m) :: held).eraseP (fun p => p.1 = l) = held := by
  rw [List.eraseP_cons_of_pos (by simp)]

/-- **A step keeps all threads to the discipline.** -/
theorem Step.disciplined (hprograms : ∀ t, ∀ p ∈ programs t, p.Balanced may [] []) {x y : Threads σ L ι}
    (h : ∀ t, (x.thread t).Disciplined may) (hstep : Step programs x y) : ∀ t, (y.thread t).Disciplined may := by
  cases hstep with
  | @begin t held p here mem =>
    obtain ⟨hallowed, hbalanced⟩ := here ▸ h t
    cases hbalanced with
    | done => exact goOn_disciplined h ⟨hallowed, hprograms t p mem⟩
  | @acquire t held m l k here =>
    obtain ⟨hallowed, hbalanced⟩ := here ▸ h t
    cases hbalanced with
    | acquire allowed next => exact goOn_disciplined h ⟨.cons allowed hallowed, next⟩
  | @release t held l k here =>
    obtain ⟨hallowed, hbalanced⟩ := here ▸ h t
    cases hbalanced with
    | release next =>
      rw [eraseP_last]
      exact goOn_disciplined h ⟨hallowed.tail, next⟩
  | @get t held k here =>
    obtain ⟨hallowed, hbalanced⟩ := here ▸ h t
    cases hbalanced with
    | get next => exact goOn_disciplined h ⟨hallowed, next _⟩
  | @modify t held f k here =>
    obtain ⟨hallowed, hbalanced⟩ := here ▸ h t
    cases hbalanced with
    | modify next => exact goOn_disciplined h ⟨hallowed, next⟩

/-- **In every state that can be reached all threads keep to the discipline.** -/
theorem reachable_disciplined (hprograms : ∀ t, ∀ p ∈ programs t, p.Balanced may [] []) {s : σ} {x : Threads σ L ι}
    (h : Reachable programs s x) (t : ι) : (x.thread t).Disciplined may := by
  induction h generalizing t with
  | refl => exact ⟨.nil, .done ()⟩
  | tail _ hstep ih => exact hstep.disciplined hprograms ih t

/-! ### Locks in order -/

variable {rank : L → ℕ}

/-- **Threads that take their locks in order are not deadlocked.** -/
theorem not_deadlocked (hprograms : ∀ t, ∀ p ∈ programs t, p.Balanced may [] [])
    (hrank : ∀ held l, may held l → ∀ p ∈ held, rank p.1 < rank l) {n : ℕ} (hbound : ∀ l, rank l ≤ n) {s : σ}
    {x : Threads σ L ι} (h : Reachable programs s x) (S : Set ι) : ¬ x.Deadlocked S := by
  rintro ⟨⟨t₀, ht₀⟩, hS⟩
  -- in a deadlocked set there are threads that have come as far as you like
  have hfar : ∀ i, ∃ t ∈ S, i ≤ (x.thread t).level rank := by
    intro i
    induction i with
    | zero => exact ⟨t₀, ht₀, Nat.zero_le _⟩
    | succ i ih =>
      obtain ⟨t, ht, hle⟩ := ih
      obtain ⟨u, hu, htu⟩ := hS t ht
      obtain ⟨v, -, huv⟩ := hS u hu
      exact ⟨u, hu, hle.trans_lt (htu.level_lt hrank (reachable_disciplined hprograms h u) huv)⟩
  obtain ⟨t, ht, hle⟩ := hfar (2 * n + 2)
  obtain ⟨u, -, m, l, k, hcode, -⟩ := hS t ht
  have hl := hbound l
  rw [Thread.level, hcode] at hle
  dsimp only at hle
  split_ifs at hle <;> omega

/-- Every thread waits, if it does, in the end for one that no other blocks. -/
theorem exists_not_blocked (hprograms : ∀ t, ∀ p ∈ programs t, p.Balanced may [] [])
    (hrank : ∀ held l, may held l → ∀ p ∈ held, rank p.1 < rank l) {n : ℕ} (hbound : ∀ l, rank l ≤ n) {s : σ}
    {x : Threads σ L ι} (h : Reachable programs s x) (t : ι) :
    ∃ u, Relation.ReflTransGen x.BlockedBy t u ∧ ∀ v, ¬ x.BlockedBy u v := by
  by_contra hall
  push Not at hall
  refine not_deadlocked hprograms hrank hbound h {u | Relation.ReflTransGen x.BlockedBy t u} ⟨⟨t, .refl⟩, ?_⟩
  intro u hu
  obtain ⟨v, huv⟩ := hall u hu
  exact ⟨v, hu.tail huv, huv⟩

end Threads

end PgRouter.Foundation
