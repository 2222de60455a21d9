import Mathlib.Data.List.Basic
import Mathlib.Logic.Function.Basic

/-!
# Consumers of tokens

A program that takes one token after the other, from wherever they come, and decides what to do by what
it gets: a parser, for instance. What it does with its tokens (`Consumer`) is separate from what delivers
them, a partial function from states to tokens, so that the same program can be run on two sources. Two
sources that deliver the same tokens lead to the same result, also if they no longer agree after a token
with which the program ends (`Consumer.Ends.run_eq`).
-/

namespace PgRouter.Foundation

universe u v w x

/-- A program that takes tokens. -/
inductive Consumer (τ : Type u) (α : Type v) where
  /-- It is over. -/
  | done (a : α)
  /-- It takes a token, and goes on with it. -/
  | read (k : τ → Consumer τ α)

namespace Consumer

variable {τ : Type u} {α β : Type v} {σ : Type w}

/-- One program after the other. -/
def bind : Consumer τ α → (α → Consumer τ β) → Consumer τ β
  | done a, g => g a
  | read k, g => read fun t => (k t).bind g

instance : Monad (Consumer τ) where
  pure := done
  bind := bind

/-- Takes a token. -/
def token : Consumer τ τ := read done

/-- The program with the tokens of a source, if it delivers them. -/
def run (next : σ → Option (τ × σ)) : Consumer τ α → σ → Option (α × σ)
  | done a, s => some (a, s)
  | read k, s =>
    match next s with
    | some (t, s) => (k t).run next s
    | none => none

/-- The tokens that the program takes from a source, each with the states of the source before and after. -/
def trace (next : σ → Option (τ × σ)) : Consumer τ α → σ → List (σ × τ × σ)
  | done _, _ => []
  | read k, s =>
    match next s with
    | some (t, s') => (s, t, s') :: (k t).trace next s'
    | none => []

/-- The states of a source in which the program takes a token, also if none is delivered. -/
def asked (next : σ → Option (τ × σ)) : Consumer τ α → σ → List σ
  | done _, _ => []
  | read k, s =>
    s :: match next s with
      | some (t, s') => (k t).asked next s'
      | none => []

@[simp] theorem pure_eq (a : α) : (pure a : Consumer τ α) = done a := rfl

@[simp] theorem bind_eq (m : Consumer τ α) (g : α → Consumer τ β) : (m >>= g) = m.bind g := rfl

@[simp] theorem done_bind (a : α) (g : α → Consumer τ β) : (done a).bind g = g a := rfl

@[simp] theorem read_bind (k : τ → Consumer τ α) (g : α → Consumer τ β) :
    (read k).bind g = read fun t => (k t).bind g := rfl

@[simp] theorem run_done (next : σ → Option (τ × σ)) (a : α) (s : σ) : (done a).run next s = some (a, s) := rfl

theorem run_read {next : σ → Option (τ × σ)} {k : τ → Consumer τ α} {s s' : σ} {t : τ} (h : next s = some (t, s')) :
    (read k).run next s = (k t).run next s' := by rw [run, h]

theorem trace_read {next : σ → Option (τ × σ)} {k : τ → Consumer τ α} {s s' : σ} {t : τ}
    (h : next s = some (t, s')) : (read k).trace next s = (s, t, s') :: (k t).trace next s' := by rw [trace, h]

theorem asked_read {next : σ → Option (τ × σ)} {k : τ → Consumer τ α} {s s' : σ} {t : τ}
    (h : next s = some (t, s')) : (read k).asked next s = s :: (k t).asked next s' := by rw [asked, h]

theorem mem_asked {next : σ → Option (τ × σ)} (k : τ → Consumer τ α) (s : σ) : s ∈ (read k).asked next s := by
  rw [asked]
  exact List.mem_cons_self

/-- In a run that comes to an end all tokens are delivered. -/
theorem next_ne_of_run {next : σ → Option (τ × σ)} {m : Consumer τ α} {s : σ} {x : α × σ}
    (h : m.run next s = some x) : ∀ r ∈ m.asked next s, next r ≠ none := by
  induction m generalizing s with
  | done a => exact fun r hr => absurd hr List.not_mem_nil
  | read k ih =>
    intro r hr
    cases hnext : next s with
    | none =>
      rw [run, hnext] at h
      cases h
    | some y =>
      rw [run_read hnext] at h
      rw [asked_read hnext] at hr
      rcases List.mem_cons.mp hr with rfl | hr
      · rw [hnext]
        exact Option.some_ne_none y
      · exact ih _ h r hr

theorem run_bind (next : σ → Option (τ × σ)) (m : Consumer τ α) (g : α → Consumer τ β) (s : σ) :
    (m.bind g).run next s = (m.run next s).bind fun x => (g x.1).run next x.2 := by
  induction m generalizing s with
  | done a => rfl
  | read k ih =>
    simp only [read_bind, run]
    cases next s with
    | none => rfl
    | some x => exact ih x.1 x.2

/-- The second program takes its tokens where the first one has left the source. -/
theorem asked_bind {next : σ → Option (τ × σ)} {m : Consumer τ α} {s s' : σ} {a : α} (h : m.run next s = some (a, s'))
    (g : α → Consumer τ β) : (m.bind g).asked next s = m.asked next s ++ (g a).asked next s' := by
  induction m generalizing s with
  | done b =>
    cases h
    rfl
  | read k ih =>
    cases hnext : next s with
    | none =>
      rw [run, hnext] at h
      cases h
    | some x =>
      rw [run_read hnext] at h
      rw [read_bind, asked_read hnext, asked_read hnext, ih _ h]
      rfl

/-- All results that are possible satisfy `P`. -/
def Yields (P : α → Prop) : Consumer τ α → Prop
  | done a => P a
  | read k => ∀ t, (k t).Yields P

variable {P : α → Prop} {Q : β → Prop}

/-- So does the result of a run. -/
theorem Yields.run {next : σ → Option (τ × σ)} {m : Consumer τ α} (h : m.Yields P) {s s' : σ} {a : α}
    (hrun : m.run next s = some (a, s')) : P a := by
  induction m generalizing s with
  | done b =>
    cases hrun
    exact h
  | read k ih =>
    simp only [Consumer.run] at hrun
    split at hrun
    · exact ih _ (h _) hrun
    · cases hrun

theorem Yields.mono {m : Consumer τ α} (h : m.Yields P) {P' : α → Prop} (himp : ∀ a, P a → P' a) : m.Yields P' := by
  induction m with
  | done a => exact himp a h
  | read k ih => exact fun t => ih t (h t)

theorem Yields.bind {m : Consumer τ α} {g : α → Consumer τ β} (h : m.Yields P) (hg : ∀ a, P a → (g a).Yields Q) :
    (m.bind g).Yields Q := by
  induction m with
  | done a => exact hg a h
  | read k ih => exact fun t => ih t (h t)

theorem yields_true (m : Consumer τ α) : m.Yields fun _ => True := by
  induction m with
  | done a => trivial
  | read k ih => exact ih

/-! ### Total sources -/

/-- The program with the tokens of a source that always delivers one. -/
def eval (next : σ → τ × σ) : Consumer τ α → σ → α × σ
  | done a, s => (a, s)
  | read k, s => (k (next s).1).eval next (next s).2

@[simp] theorem eval_done (next : σ → τ × σ) (a : α) (s : σ) : (done a).eval next s = (a, s) := rfl

@[simp] theorem eval_read (next : σ → τ × σ) (k : τ → Consumer τ α) (s : σ) :
    (read k).eval next s = (k (next s).1).eval next (next s).2 := rfl

theorem eval_bind (next : σ → τ × σ) (m : Consumer τ α) (g : α → Consumer τ β) (s : σ) :
    (m.bind g).eval next s = (g (m.eval next s).1).eval next (m.eval next s).2 := by
  induction m generalizing s with
  | done a => rfl
  | read k ih => exact ih (next s).1 (next s).2

/-- The tokens that the program takes from a source that always delivers one. -/
def taken (next : σ → τ × σ) : Consumer τ α → σ → List τ
  | done _, _ => []
  | read k, s => (next s).1 :: (k (next s).1).taken next (next s).2

@[simp] theorem taken_done (next : σ → τ × σ) (a : α) (s : σ) : (done a).taken next s = [] := rfl

@[simp] theorem taken_read (next : σ → τ × σ) (k : τ → Consumer τ α) (s : σ) :
    (read k).taken next s = (next s).1 :: (k (next s).1).taken next (next s).2 := rfl

theorem taken_bind (next : σ → τ × σ) (m : Consumer τ α) (g : α → Consumer τ β) (s : σ) :
    (m.bind g).taken next s = m.taken next s ++ (g (m.eval next s).1).taken next (m.eval next s).2 := by
  induction m generalizing s with
  | done a => rfl
  | read k ih => exact congrArg (List.cons _) (ih (next s).1 (next s).2)

/-- With a token that is final the program is over, and its result is one of `stop`. -/
def Ends (final : τ → Prop) (stop : α → Prop) : Consumer τ α → Prop
  | done _ => True
  | read k => ∀ t, (k t).Ends final stop ∧ (final t → ∃ a, k t = done a ∧ stop a)

variable {final : τ → Prop} {stop : α → Prop} {stop' : β → Prop}

theorem Ends.bind {m : Consumer τ α} {g : α → Consumer τ β} (h : m.Ends final stop)
    (hg : ∀ a, (g a).Ends final stop') (hstop : ∀ a, stop a → ∃ b, g a = done b ∧ stop' b) :
    (m.bind g).Ends final stop' := by
  induction m with
  | done a => exact hg a
  | read k ih =>
    intro t
    obtain ⟨hk, hfinal⟩ := h t
    refine ⟨ih t hk, fun ht => ?_⟩
    obtain ⟨a, ha, hpost⟩ := hfinal ht
    have hbind : (k t).bind g = g a := by rw [ha, done_bind]
    change ∃ b, (k t).bind g = done b ∧ stop' b
    rw [hbind]
    exact hstop a hpost

/-- What holds of a source stays true where it is asked, if it does with every token that is not final. -/
theorem Ends.asked_inv {next : σ → Option (τ × σ)} {I : σ → Prop}
    (hstep : ∀ s t s', I s → next s = some (t, s') → ¬final t → I s') {m : Consumer τ α} (h : m.Ends final stop) {s : σ}
    (hs : I s) : ∀ r ∈ m.asked next s, I r := by
  induction m generalizing s with
  | done a => exact fun r hr => absurd hr List.not_mem_nil
  | read k ih =>
    intro r hr
    rw [asked] at hr
    rcases List.mem_cons.mp hr with rfl | hr
    · exact hs
    · cases hnext : next s with
      | none =>
        rw [hnext] at hr
        exact absurd hr List.not_mem_nil
      | some x =>
        rw [hnext] at hr
        dsimp only at hr
        obtain ⟨hk, hend⟩ := h x.1
        by_cases hfinal : final x.1
        · obtain ⟨a, ha, -⟩ := hend hfinal
          rw [ha] at hr
          exact absurd hr List.not_mem_nil
        · exact ih x.1 hk (hstep s x.1 x.2 hs hnext hfinal) r hr

variable {σ' : Type x}

/-- A source that delivers what a total one delivers where it is asked, as long as no token is final. -/
theorem Ends.run_eq_of_asked {next : σ → Option (τ × σ)} {next' : σ' → τ × σ'} {rel : σ → σ' → Prop}
    {m : Consumer τ α} (h : m.Ends final stop) {s : σ} {s' : σ'} (hrel : rel s s')
    (hstep : ∀ r ∈ m.asked next s, ∀ r', rel r r' →
      ∃ q, next r = some ((next' r').1, q) ∧ (¬final (next' r').1 → rel q (next' r').2)) :
    ∃ r, m.run next s = some ((m.eval next' s').1, r) ∧
      (m.trace next s).map (fun x => x.2.1) = m.taken next' s' ∧
      (¬stop (m.eval next' s').1 → rel r (m.eval next' s').2) := by
  induction m generalizing s s' with
  | done a => exact ⟨s, rfl, rfl, fun _ => hrel⟩
  | read k ih =>
    obtain ⟨r, hnext, hagree⟩ := hstep s (mem_asked k s) s' hrel
    obtain ⟨hk, hend⟩ := h (next' s').1
    rw [run_read hnext, eval_read, trace_read hnext, taken_read]
    rw [asked_read hnext] at hstep
    by_cases hfinal : final (next' s').1
    · obtain ⟨a, ha, hstop⟩ := hend hfinal
      rw [ha]
      exact ⟨r, rfl, rfl, fun hne => absurd hstop hne⟩
    · obtain ⟨q, hrun, htrace, hq⟩ := ih _ hk (hagree hfinal) fun r hr => hstep r (List.mem_cons_of_mem _ hr)
      exact ⟨q, hrun, congrArg (List.cons _) htrace, hq⟩

/-- A source that delivers what a total one delivers, as long as no token is final. -/
theorem Ends.run_eq {next : σ → Option (τ × σ)} {next' : σ' → τ × σ'} {rel : σ → σ' → Prop}
    (hstep : ∀ s s', rel s s' → ∃ r, next s = some ((next' s').1, r) ∧ (¬final (next' s').1 → rel r (next' s').2))
    {m : Consumer τ α} (h : m.Ends final stop) {s : σ} {s' : σ'} (hrel : rel s s') :
    ∃ r, m.run next s = some ((m.eval next' s').1, r) ∧
      (m.trace next s).map (fun x => x.2.1) = m.taken next' s' ∧
      (¬stop (m.eval next' s').1 → rel r (m.eval next' s').2) :=
  h.run_eq_of_asked hrel fun r _ => hstep r

end Consumer

end PgRouter.Foundation
