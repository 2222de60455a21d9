import Mathlib.Data.List.Basic
import Mathlib.Logic.Function.Basic

/-!
# Files and the locks on them

Files, the names that they have, and the locks that processes have on them. A process that has opened a file keeps to
it: when the name is taken from it and given to a new file, the process still has the old one. A lock is on a file,
not on a name, and is released when the process that has it ends.
-/

namespace PgRouter.Foundation

universe u v w x

/-- Files, which are numbered in the order in which they are made, with names `ν`, processes `π`, owners `ω` and
octets `β`. -/
structure Files (ν : Type u) (π : Type v) (ω : Type w) (β : Type x) where
  /-- The file that a name stands for. -/
  entry : ν → Option ℕ
  /-- How many files have been made. -/
  made : ℕ
  /-- What a file contains. -/
  content : ℕ → List β
  /-- To whom a file belongs. -/
  owner : ℕ → ω
  /-- Which process has the lock on a file. -/
  lock : ℕ → Option π

namespace Files

variable {ν : Type u} {π : Type v} {ω : Type w} {β : Type x}

/-- `open` with `O_CREAT`, by a process whose files belong to `o`: a name that stands for no file is given a new one. -/
def create [DecidableEq ν] (fs : Files ν π ω β) (n : ν) (o : ω) : ℕ × Files ν π ω β :=
  match fs.entry n with
  | some f => (f, fs)
  | none => (fs.made, { fs with
      entry := Function.update fs.entry n (some fs.made)
      made := fs.made + 1
      content := Function.update fs.content fs.made []
      owner := Function.update fs.owner fs.made o })

/-- `fcntl` with `F_SETLK` for a whole file: it is refused if another process has the lock. -/
def setlk [DecidableEq π] (fs : Files ν π ω β) (p : π) (f : ℕ) : Option (Files ν π ω β) :=
  if fs.lock f = none ∨ fs.lock f = some p then some { fs with lock := Function.update fs.lock f (some p) } else none

/-- `write` at the beginning of a file. What was behind that stays. -/
def write (fs : Files ν π ω β) (f : ℕ) (d : List β) : Files ν π ω β :=
  { fs with content := Function.update fs.content f (d ++ (fs.content f).drop d.length) }

/-- `fchown`. -/
def chown (fs : Files ν π ω β) (f : ℕ) (o : ω) : Files ν π ω β := { fs with owner := Function.update fs.owner f o }

/-- `unlink`. -/
def unlink [DecidableEq ν] (fs : Files ν π ω β) (n : ν) : Files ν π ω β :=
  { fs with entry := Function.update fs.entry n none }

/-- A process ends, and with it its locks. -/
def release [DecidableEq π] (fs : Files ν π ω β) (p : π) : Files ν π ω β :=
  { fs with lock := fun f => if fs.lock f = some p then none else fs.lock f }

variable {fs : Files ν π ω β} {p q : π} {f : ℕ}

/-- What `open` comes to. -/
theorem create_cases [DecidableEq ν] (fs : Files ν π ω β) (n : ν) (o : ω) :
    (∃ f, fs.entry n = some f ∧ fs.create n o = (f, fs)) ∨
      fs.entry n = none ∧ (fs.create n o).1 = fs.made ∧
        (fs.create n o).2.entry = Function.update fs.entry n (some fs.made) := by
  cases h : fs.entry n with
  | some f => exact .inl ⟨f, rfl, by simp only [create, h]⟩
  | none => exact .inr ⟨rfl, by simp only [create, h], by simp only [create, h]⟩

@[simp] theorem create_lock [DecidableEq ν] (fs : Files ν π ω β) (n : ν) (o : ω) :
    (fs.create n o).2.lock = fs.lock := by
  cases h : fs.entry n <;> simp only [create, h]

theorem made_le_create [DecidableEq ν] (fs : Files ν π ω β) (n : ν) (o : ω) : fs.made ≤ (fs.create n o).2.made := by
  cases h : fs.entry n <;> simp only [create, h]
  · exact Nat.le_succ _
  · exact Nat.le_refl _

/-- The file that is opened has been made. -/
theorem create_lt [DecidableEq ν] (h : ∀ n f, fs.entry n = some f → f < fs.made) (n : ν) (o : ω) :
    (fs.create n o).1 < (fs.create n o).2.made := by
  cases hentry : fs.entry n with
  | some f => simpa only [create, hentry] using h n f hentry
  | none => simp only [create, hentry, Nat.lt_succ_self]

/-- So have those that names stand for. -/
theorem create_entry_lt [DecidableEq ν] (h : ∀ n f, fs.entry n = some f → f < fs.made) (n : ν) (o : ω) (m : ν) (f : ℕ)
    (hm : (fs.create n o).2.entry m = some f) : f < (fs.create n o).2.made := by
  obtain ⟨g, -, hcreate⟩ | ⟨-, hnew, hentries⟩ := create_cases fs n o
  · rw [hcreate] at hm ⊢
    exact h m f hm
  · have hlt := create_lt h n o
    rw [hentries] at hm
    by_cases hmn : m = n
    · rw [hmn, Function.update_self] at hm
      rw [← Option.some.inj hm, ← hnew]
      exact hlt
    · rw [Function.update_of_ne hmn] at hm
      exact Nat.lt_of_lt_of_le (h m f hm) (made_le_create fs n o)

/-- A new file is empty. -/
theorem create_content_or [DecidableEq ν] (fs : Files ν π ω β) (n : ν) (o : ω) (f : ℕ) :
    (fs.create n o).2.content f = fs.content f ∨ (fs.create n o).2.content f = [] := by
  cases h : fs.entry n with
  | some g => exact .inl (by simp only [create, h])
  | none =>
    simp only [create, h]
    by_cases hf : f = fs.made
    · exact .inr (by rw [hf, Function.update_self])
    · exact .inl (Function.update_of_ne hf _ _)

/-- What was in a file before is still in it. -/
theorem create_content [DecidableEq ν] (n : ν) (o : ω) (hf : f < fs.made) :
    (fs.create n o).2.content f = fs.content f := by
  cases h : fs.entry n <;> simp only [create, h]
  exact Function.update_of_ne (Nat.ne_of_lt hf) _ _

/-- A file that there was before belongs to whom it belonged to. -/
theorem create_owner [DecidableEq ν] (n : ν) (o : ω) (hf : f < fs.made) : (fs.create n o).2.owner f = fs.owner f := by
  cases h : fs.entry n <;> simp only [create, h]
  exact Function.update_of_ne (Nat.ne_of_lt hf) _ _

/-- A lock that is granted was not another's, and nothing else changes. -/
theorem setlk_some [DecidableEq π] {fs' : Files ν π ω β} (h : fs.setlk p f = some fs') :
    (fs.lock f = none ∨ fs.lock f = some p) ∧ fs' = { fs with lock := Function.update fs.lock f (some p) } := by
  unfold setlk at h
  split_ifs at h with hfree
  exact ⟨hfree, (Option.some.inj h).symm⟩

@[simp] theorem unlink_self [DecidableEq ν] (fs : Files ν π ω β) (n : ν) : (fs.unlink n).entry n = none :=
  Function.update_self _ _ _

/-- The other names stay. -/
theorem unlink_of_ne [DecidableEq ν] {n m : ν} (h : m ≠ n) : (fs.unlink n).entry m = fs.entry m :=
  Function.update_of_ne h _ _

/-- The locks of the others stay. -/
theorem release_lock [DecidableEq π] (h : fs.lock f = some q) (hne : q ≠ p) : (fs.release p).lock f = some q := by
  simp only [release]
  rw [if_neg fun heq => hne (Option.some.inj (h.symm.trans heq)), h]

end Files

end PgRouter.Foundation
