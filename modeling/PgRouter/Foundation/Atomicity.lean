import PgRouter.Foundation.Serial

/-!
# Sections under a lock are atomic

Threads whose programs are guarded by one lock can be thought of as running whole sections, one after the
other.

## What is proved

Each state of the threads is tracked by one of the serial system, in which a section has been run as soon
as its lock was taken (`Tracked`). A step of a thread is one of the serial system, or none
(`Tracked.step`), so that what can be reached in any order of the steps is reached by whole sections one
after the other (`exists_serial`).
-/

namespace PgRouter.Foundation

universe u v w z

variable {P Q : Type u} {L : Type v} {ι : Type w} {α : Type z}

/-! ### From the threads to the serial system -/

/-- The program of a thread, as one over the state of all threads. -/
def Program.at [DecidableEq ι] (t : ι) (p : Program (P × Q) L α) : Program (P × (ι → Q)) L α :=
  p.zoom (fun s => (s.1, s.2 t)) fun s x => (x.1, Function.update s.2 t x.2)

namespace Program

variable [DecidableEq ι] {t : ι} {p : Program (P × Q) L α}

theorem at_eq_done {a : α} (h : p.at t = done a) : p = done a := by
  cases p with
  | done b => exact congrArg done (done.inj h)
  | _ => exact nomatch h

theorem at_eq_acquire {m : Mode} {l : L} {k : Program (P × (ι → Q)) L α} (h : p.at t = acquire m l k) :
    ∃ k₀, p = acquire m l k₀ ∧ k = k₀.at t := by
  cases p with
  | acquire m' l' k₀ =>
    obtain ⟨rfl, rfl, rfl⟩ := acquire.inj h
    exact ⟨k₀, rfl, rfl⟩
  | _ => exact nomatch h

theorem at_eq_release {l : L} {k : Program (P × (ι → Q)) L α} (h : p.at t = release l k) :
    ∃ k₀, p = release l k₀ ∧ k = k₀.at t := by
  cases p with
  | release l' k₀ =>
    obtain ⟨rfl, rfl⟩ := release.inj h
    exact ⟨k₀, rfl, rfl⟩
  | _ => exact nomatch h

theorem at_eq_get {k : P × (ι → Q) → Program (P × (ι → Q)) L α} (h : p.at t = get k) :
    ∃ k₀ : P × Q → Program (P × Q) L α, p = get k₀ ∧ ∀ s, k s = (k₀ (s.1, s.2 t)).at t := by
  cases p with
  | get k₀ =>
    obtain rfl := get.inj h
    exact ⟨k₀, rfl, fun _ => rfl⟩
  | _ => exact nomatch h

theorem at_eq_modify {f : P × (ι → Q) → P × (ι → Q)} {k : Program (P × (ι → Q)) L α} (h : p.at t = modify f k) :
    ∃ (f₀ : P × Q → P × Q) (k₀ : Program (P × Q) L α), p = modify f₀ k₀ ∧ k = k₀.at t ∧
      ∀ s, f s = ((f₀ (s.1, s.2 t)).1, Function.update s.2 t (f₀ (s.1, s.2 t)).2) := by
  cases p with
  | modify f₀ k₀ =>
    obtain ⟨rfl, rfl⟩ := modify.inj h
    exact ⟨f₀, k₀, rfl, rfl, fun _ => rfl⟩
  | _ => exact nomatch h

end Program

namespace Threads

variable [DecidableEq ι] [DecidableEq L] {root : L} {programs : ι → Set (Program (P × Q) L Unit)}

/-- What thread `t` can see. -/
def seen (x : Threads (P × (ι → Q)) L ι) (t : ι) : P × Q := (x.shared.1, x.shared.2 t)

/-- Where a thread is when its section is over, if it is in one. -/
def after (root : L) (held : Held L) (code : Program (P × Q) L Unit) (s : P × Q) : Program (P × Q) L Unit × (P × Q) :=
  if held = [] then (code, s) else code.finish root s

/-- A thread of the serial system is ahead of a thread by the rest of its section: `r` is what it has still to
do and what it can see, and `s` what the thread can see, which has the locks `held` and has to do `code`. -/
structure Tracks (root : L) (held : Held L) (code : Program (P × Q) L Unit) (s : P × Q)
    (r : Program (P × Q) L Unit × (P × Q)) : Prop where
  /-- The thread is in no section, or in one. -/
  place : held = [] ∨ ∃ m, held.Inside root m
  /-- It will look at the common part and write to it as it may. -/
  guarded : code.Guarded root held []
  /-- What it has to do after its section. -/
  next : r.1 = (after root held code s).1
  /-- What it will have written to its own part. -/
  own : r.2.2 = (after root held code s).2.2
  /-- What it will have written to the common part. -/
  common : (root, .write) ∈ held → r.2.1 = (after root held code s).2.1

/-- A state of the threads and one of the serial system, which has run the section of a thread as soon as
that has taken the lock. -/
structure Tracked (root : L) (x : Threads (P × (ι → Q)) L ι) (X : Serial P Q L ι) : Prop where
  /-- Each thread is tracked. -/
  thread : ∀ t, ∃ code, (x.thread t).code = code.at t ∧
    Tracks root (x.thread t).held code (x.seen t) (X.code t, X.seen t)
  /-- Nothing has been written to the common part beforehand but by a thread that has the lock alone. -/
  common : (∀ t, (root, .write) ∉ (x.thread t).held) → X.common = x.shared.1
  /-- A thread that has the lock alone is the only one in a section. -/
  alone : ∀ t u, (root, .write) ∈ (x.thread t).held → u ≠ t → (x.thread u).held = []

/-- No thread has begun. -/
theorem Tracked.start (p : P) (q : ι → Q) : Tracked root (.start (p, q)) (.start p q : Serial P Q L ι) where
  thread := fun _ => ⟨.done (), rfl, .inl rfl, .done (), rfl, rfl, fun h => absurd h List.not_mem_nil⟩
  common := fun _ => rfl
  alone := fun _ _ h => absurd h List.not_mem_nil

/-! ### The steps of a thread -/

namespace Tracks

variable {held : Held L} {s : P × Q} {r : Program (P × Q) L Unit × (P × Q)}

/-- A thread goes on, and another is tracked as before. -/
theorem frame {code : Program (P × Q) L Unit} (h : Tracks root held code s r) {p p' : P}
    (hp : held ≠ [] → p = s.1) (hp' : (root, .write) ∈ held → p' = r.2.1) :
    Tracks root held code (p, s.2) (r.1, (p', r.2.2)) := by
  by_cases hnil : held = []
  · subst hnil
    exact ⟨h.place, h.guarded, h.next, h.own, fun hmem => absurd hmem List.not_mem_nil⟩
  · obtain rfl := hp hnil
    exact ⟨h.place, h.guarded, h.next, h.own, fun hmem => (hp' hmem).trans (h.common hmem)⟩

/-- A thread that is over is in no section. -/
theorem of_done (h : Tracks root held (.done ()) s r) : held = [] ∧ r.1 = .done () ∧ r.2.2 = s.2 := by
  obtain rfl : held = [] := by
    cases h.guarded with
    | done => rfl
  exact ⟨rfl, h.next, h.own⟩

/-- A thread that is in no section does what is to be done. -/
theorem outside {code : Program (P × Q) L Unit} (h : code.Guarded root [] []) {s' : P × Q} (hown : s'.2 = s.2) :
    Tracks root [] code s (code, s') :=
  ⟨.inl rfl, h, rfl, hown, fun hmem => absurd hmem List.not_mem_nil⟩

/-- A thread takes a lock: that of its section, or another. -/
theorem of_acquire {m : Mode} {l : L} {k : Program (P × Q) L Unit} (h : Tracks root held (.acquire m l k) s r) :
    held = [] ∧ root = l ∧ r.1 = .acquire m root k ∧ r.2.2 = s.2 ∧ k.Guarded root [(root, m)] [] ∨
      l ≠ root ∧ held ≠ [] ∧ Tracks root ((l, m) :: held) k s r := by
  cases h.guarded with
  | enter next => exact .inl ⟨rfl, rfl, h.next, h.own, next⟩
  | inner other inside next =>
    refine .inr ⟨other, inside, ?_, next, ?_, ?_, fun hmem => ?_⟩
    · obtain hnil | ⟨m', hm'⟩ := h.place
      · exact absurd hnil inside
      · exact .inr ⟨m', .inner other hm'⟩
    · have hnext := h.next
      rwa [after, if_neg inside] at hnext
    · have hown := h.own
      rwa [after, if_neg inside] at hown
    · have hcommon := h.common (by simpa [other.symm] using hmem)
      rwa [after, if_neg inside] at hcommon

/-- A thread that has taken the lock of its section. -/
theorem enter {m : Mode} {k : Program (P × Q) L Unit} (h : k.Guarded root [(root, m)] []) (s : P × Q) :
    Tracks root [(root, m)] k s (k.finish root s) :=
  ⟨.inr ⟨m, .root⟩, h, rfl, rfl, fun _ => rfl⟩

/-- A thread releases its last lock. -/
theorem of_release {l : L} {k : Program (P × Q) L Unit} (h : Tracks root held (.release l k) s r) :
    ∃ m held₀, held = (l, m) :: held₀ ∧ Tracks root held₀ k s r ∧
      (l = root → held₀ = [] ∧ (m = .write → r.2.1 = s.1)) ∧ (l ≠ root → held₀ ≠ []) := by
  obtain ⟨place, guarded, next, own, common⟩ := h
  cases guarded with
  | @release held₀ _ m l k guarded =>
    obtain hnil | ⟨m', inside⟩ := place
    · exact absurd hnil (List.cons_ne_nil _ _)
    have hne : (l, m) :: held₀ ≠ [] := List.cons_ne_nil _ _
    rw [after, if_neg hne] at next own common
    rcases inside.release with ⟨hl, hnil⟩ | ⟨hl, before⟩
    · subst hl hnil
      simp only [Program.finish, if_true] at next own common
      refine ⟨m, [], rfl, ⟨.inl rfl, guarded, next, own, fun hmem => absurd hmem List.not_mem_nil⟩, fun _ => ⟨rfl, ?_⟩,
        fun hne => absurd rfl hne⟩
      intro hm
      exact common (by rw [hm]; exact List.mem_cons_self)
    · simp only [Program.finish, if_neg hl] at next own common
      refine ⟨m, held₀, rfl, ⟨.inr ⟨m', before⟩, guarded, ?_, ?_, fun hmem => ?_⟩, fun heq => absurd heq hl,
        fun _ => before.ne_nil⟩
      · rwa [after, if_neg before.ne_nil]
      · rwa [after, if_neg before.ne_nil]
      · rw [after, if_neg before.ne_nil]
        exact common (List.mem_cons_of_mem _ hmem)

/-- A thread looks at what it can see. -/
theorem of_get {k : P × Q → Program (P × Q) L Unit} (h : Tracks root held (.get k) s r) :
    held = [] ∧ r.1 = .get k ∧ r.2.2 = s.2 ∧ k r.2 = k s ∧ (k s).Guarded root [] [] ∨
      held ≠ [] ∧ Tracks root held (k s) s r := by
  obtain ⟨place, guarded, next, own, common⟩ := h
  cases guarded with
  | get hown guarded =>
    by_cases hnil : held = []
    · subst hnil
      obtain ⟨code, p', q'⟩ := r
      obtain ⟨p, q⟩ := s
      obtain rfl : q' = q := own
      exact .inl ⟨rfl, next, rfl, hown rfl p' p q', guarded _⟩
    · refine .inr ⟨hnil, place, guarded s, ?_, ?_, fun hmem => ?_⟩
      · rwa [after, if_neg hnil] at next ⊢
      · rwa [after, if_neg hnil] at own ⊢
      · have hcommon := common hmem
        rwa [after, if_neg hnil] at hcommon ⊢

/-- A thread writes to what it can see. -/
theorem of_modify {f : P × Q → P × Q} {k : Program (P × Q) L Unit} (h : Tracks root held (.modify f k) s r) :
    ((root, .write) ∉ held → (f s).1 = s.1) ∧
      (held = [] ∧ r.1 = .modify f k ∧ (f r.2).1 = r.2.1 ∧ (f r.2).2 = (f s).2 ∧ k.Guarded root [] [] ∨
        held ≠ [] ∧ Tracks root held k (f s) r) := by
  obtain ⟨place, guarded, next, own, common⟩ := h
  cases guarded with
  | modify hcommon hown guarded =>
    refine ⟨fun hread => hcommon hread s, ?_⟩
    by_cases hnil : held = []
    · subst hnil
      obtain ⟨code, p', q'⟩ := r
      obtain ⟨p, q⟩ := s
      obtain rfl : q' = q := own
      exact .inl ⟨rfl, next, hcommon List.not_mem_nil _, hown rfl p' p q', guarded⟩
    · refine .inr ⟨hnil, place, guarded, ?_, ?_, fun hmem => ?_⟩
      · rwa [after, if_neg hnil] at next ⊢
      · rwa [after, if_neg hnil] at own ⊢
      · have hcommon := common hmem
        rwa [after, if_neg hnil] at hcommon ⊢

end Tracks

/-- A thread goes on, in a state `s` that it has left, and so does that of the serial system. -/
theorem Tracked.goOn {x : Threads (P × (ι → Q)) L ι} {X : Serial P Q L ι} (h : Tracked root x X) {t : ι}
    {held : Held L} {code : Program (P × Q) L Unit} {s : P × Q} {r : Program (P × Q) L Unit × (P × Q)}
    (ht : Tracks root held code s r) (hshared : s.1 = x.shared.1 ∨ ∀ u ≠ t, (x.thread u).held = [])
    (hserial : r.2.1 = X.common ∨ ∀ u ≠ t, (x.thread u).held = [])
    (hcommon : (root, .write) ∉ held → (∀ u ≠ t, (root, .write) ∉ (x.thread u).held) → r.2.1 = s.1)
    (halone : (root, .write) ∈ held → ∀ u ≠ t, (x.thread u).held = [])
    (hothers : ∀ u ≠ t, (root, .write) ∈ (x.thread u).held → held = []) :
    Tracked root { x.goOn t held (code.at t) with shared := (s.1, Function.update x.shared.2 t s.2) }
      (X.goOn t r.1 r.2) where
  thread := by
    intro u
    by_cases hu : u = t
    · subst hu
      refine ⟨code, ?_, ?_⟩
      · simp [Threads.goOn]
      · simpa [Threads.goOn, Serial.goOn, seen, Serial.seen] using ht
    · obtain ⟨codeᵤ, hcode, htracks⟩ := h.thread u
      refine ⟨codeᵤ, ?_, ?_⟩
      · simpa [Threads.goOn, Function.update_of_ne hu] using hcode
      · have hframe := htracks.frame (p := s.1)
          (fun hne => hshared.elim id fun hnil => absurd (hnil u hu) hne)
          (fun hmem => hserial.elim id fun hnil => absurd (hnil u hu) (List.ne_nil_of_mem hmem))
        simpa [Threads.goOn, Serial.goOn, seen, Serial.seen, Function.update_of_ne hu] using hframe
  common := by
    intro hnone
    refine hcommon ?_ fun u hu => ?_
    · simpa [Threads.goOn] using hnone t
    · simpa [Threads.goOn, Function.update_of_ne hu] using hnone u
  alone := by
    intro t' u hmem hu
    by_cases ht' : t' = t
    · subst ht'
      rw [show (Threads.goOn x t' held (code.at t')).thread u = x.thread u from goOn_of_ne hu _ _]
      exact halone (by simpa [Threads.goOn] using hmem) u hu
    · have hmem' : (root, Mode.write) ∈ (x.thread t').held := by
        simpa [Threads.goOn, Function.update_of_ne ht'] using hmem
      by_cases hut : u = t
      · subst hut
        simpa [Threads.goOn] using hothers t' ht' hmem'
      · simpa [Threads.goOn, Function.update_of_ne hut] using h.alone t' u hmem' hu

/-- A thread goes on and leaves the shared state alone. -/
theorem Tracked.goOn_seen {x : Threads (P × (ι → Q)) L ι} {X : Serial P Q L ι} (h : Tracked root x X) {t : ι}
    {held : Held L} {code : Program (P × Q) L Unit} {r : Program (P × Q) L Unit × (P × Q)}
    (ht : Tracks root held code (x.seen t) r) (hserial : r.2.1 = X.common ∨ ∀ u ≠ t, (x.thread u).held = [])
    (hcommon : (root, .write) ∉ held → (∀ u ≠ t, (root, .write) ∉ (x.thread u).held) → r.2.1 = x.shared.1)
    (halone : (root, .write) ∈ held → ∀ u ≠ t, (x.thread u).held = [])
    (hothers : ∀ u ≠ t, (root, .write) ∈ (x.thread u).held → held = []) :
    Tracked root (x.goOn t held (code.at t)) (X.goOn t r.1 r.2) := by
  have hgoOn := h.goOn ht (.inl rfl) hserial hcommon halone hothers
  simpa [seen, Threads.goOn] using hgoOn

/-- A thread that does not have `root` is in no section. -/
theorem Tracked.held_eq_nil {x : Threads (P × (ι → Q)) L ι} {X : Serial P Q L ι} (h : Tracked root x X) {u : ι}
    (hfree : ∀ m, (root, m) ∉ (x.thread u).held) : (x.thread u).held = [] := by
  obtain ⟨code, -, htracks⟩ := h.thread u
  obtain hnil | ⟨m, inside⟩ := htracks.place
  · exact hnil
  · exact absurd ((inside.mem_iff m).mpr rfl) (hfree m)

/-- **A step of a thread is a step of the serial system, or none.** -/
theorem Tracked.step (hprograms : ∀ t, ∀ p ∈ programs t, p.Guarded root [] []) {x y : Threads (P × (ι → Q)) L ι}
    {X : Serial P Q L ι} (h : Tracked root x X) (hstep : Step (fun t => Program.at t '' programs t) x y) :
    ∃ Y, Tracked root y Y ∧ Relation.ReflGen (Serial.Step root programs) X Y := by
  -- whether a thread that has `root` alone goes on is decided by what it has before
  have hwriter : ∀ {t : ι}, (∀ u ≠ t, (root, Mode.write) ∉ (x.thread u).held) → (root, .write) ∉ (x.thread t).held →
      X.common = x.shared.1 := by
    intro t hothers hself
    refine h.common fun u => ?_
    by_cases hu : u = t
    · rwa [hu]
    · exact hothers u hu
  have halone : ∀ {t : ι}, (root, Mode.write) ∈ (x.thread t).held → ∀ u ≠ t, (x.thread u).held = [] :=
    fun {t} hmem u hu => h.alone t u hmem hu
  have hothers : ∀ {t : ι}, ∀ u ≠ t, (root, Mode.write) ∈ (x.thread u).held → (x.thread t).held = [] :=
    fun {t} u hu hmem => h.alone u t hmem (Ne.symm hu)
  have hfree : ∀ {t : ι}, (x.thread t).held ≠ [] → ∀ u ≠ t, (root, Mode.write) ∉ (x.thread u).held :=
    fun hne u hu hmem => hne (hothers u hu hmem)
  cases hstep with
  | @begin t held p here mem =>
    obtain ⟨p₀, hp₀, rfl⟩ := mem
    obtain ⟨code, hcode, htracks⟩ := h.thread t
    rw [here] at hcode htracks
    obtain rfl := Program.at_eq_done hcode.symm
    obtain ⟨rfl, hdone, hown⟩ := htracks.of_done
    refine ⟨_, h.goOn_seen (.outside (hprograms t p₀ hp₀) hown) (.inl rfl) (fun _ ho => ?_)
      (fun hmem => absurd hmem List.not_mem_nil) (fun _ _ _ => rfl), .single (.begin hdone hp₀)⟩
    exact hwriter ho (by rw [here]; exact List.not_mem_nil)
  | @acquire t held m l k here free =>
    obtain ⟨code, hcode, htracks⟩ := h.thread t
    rw [here] at hcode htracks
    obtain ⟨k₀, rfl, rfl⟩ := Program.at_eq_acquire hcode.symm
    rcases htracks.of_acquire with ⟨rfl, rfl, hnext, hown, hguarded⟩ | ⟨hl, hne, htracks⟩
    · -- a section begins, and the serial system runs it
      have hnowriter : ∀ u, (root, Mode.write) ∉ (x.thread u).held := fun u hmem => free u .write hmem (.inr rfl)
      have hseen : X.seen t = x.seen t := Prod.ext (h.common hnowriter) hown
      have halone' : m = .write → ∀ u, (x.thread u).held = [] := fun hm u =>
        h.held_eq_nil fun m' hmem => free u m' hmem (.inl hm)
      refine ⟨_, h.goOn_seen (.enter hguarded (x.seen t)) ?_ (fun hread _ => ?_) (fun hmem u _ => ?_)
        (fun u _ hmem => absurd hmem (hnowriter u)), ?_⟩
      · cases m with
        | read => exact .inl ((hguarded.finish_fst .root _).trans (congrArg Prod.fst hseen.symm))
        | write => exact .inr fun u _ => halone' rfl u
      · cases m with
        | read => exact hguarded.finish_fst .root _
        | write => exact absurd List.mem_cons_self hread
      · refine halone' ?_ u
        simpa using (congrArg Prod.snd (List.mem_singleton.mp hmem)).symm
      · rw [← hseen]
        exact .single (.run hnext)
    · -- another lock is taken
      have hne' : (x.thread t).held ≠ [] := by rwa [here]
      refine ⟨_, h.goOn_seen htracks (.inl rfl) (fun hread ho => hwriter ho ?_) (fun hmem => ?_)
        (fun u hu hmem => absurd hmem (hfree hne' u hu)), ?_⟩
      · rw [here]
        exact fun hmem => hread (List.mem_cons_of_mem _ hmem)
      · refine halone ?_
        rw [here]
        simpa [hl.symm] using hmem
      · rw [X.goOn_self]
  | @release t held l k here =>
    obtain ⟨code, hcode, htracks⟩ := h.thread t
    rw [here] at hcode htracks
    obtain ⟨k₀, rfl, rfl⟩ := Program.at_eq_release hcode.symm
    obtain ⟨m, held, rfl, htracks, hroot, hother⟩ := htracks.of_release
    have hne' : (x.thread t).held ≠ [] := by simp [here]
    rw [eraseP_last]
    refine ⟨_, h.goOn_seen htracks (.inl rfl) (fun hread ho => ?_) (fun hmem => ?_)
      (fun u hu hmem => absurd hmem (hfree hne' u hu)), ?_⟩
    · by_cases hl : l = root
      · cases m with
        | read =>
          refine hwriter ho ?_
          rw [here, (hroot hl).1]
          simp
        | write => exact (hroot hl).2 rfl
      · refine hwriter ho ?_
        rw [here]
        simpa [Ne.symm hl] using hread
    · refine halone ?_
      rw [here]
      exact List.mem_cons_of_mem _ hmem
    · rw [X.goOn_self]
  | @get t held k here =>
    obtain ⟨code, hcode, htracks⟩ := h.thread t
    rw [here] at hcode htracks
    obtain ⟨k₀, rfl, hk⟩ := Program.at_eq_get hcode.symm
    rw [hk]
    rcases htracks.of_get with ⟨rfl, hnext, hown, heq, hguarded⟩ | ⟨hne, htracks⟩
    · refine ⟨_, h.goOn_seen (.outside hguarded hown) (.inl rfl) (fun _ ho => ?_)
        (fun hmem => absurd hmem List.not_mem_nil) (fun _ _ _ => rfl), ?_⟩
      · exact hwriter ho (by rw [here]; exact List.not_mem_nil)
      · change Relation.ReflGen _ X (X.goOn t (k₀ (x.seen t)) (X.seen t))
        rw [← heq]
        exact .single (.get hnext)
    · have hne' : (x.thread t).held ≠ [] := by rwa [here]
      refine ⟨_, h.goOn_seen htracks (.inl rfl) (fun hread ho => hwriter ho (by rwa [here])) (fun hmem => ?_)
        (fun u hu hmem => absurd hmem (hfree hne' u hu)), ?_⟩
      · exact halone (by rwa [here])
      · rw [X.goOn_self]
  | @modify t held f k here =>
    obtain ⟨code, hcode, htracks⟩ := h.thread t
    rw [here] at hcode htracks
    obtain ⟨f₀, k₀, rfl, rfl, hf⟩ := Program.at_eq_modify hcode.symm
    rw [hf]
    obtain ⟨hread, ⟨rfl, hnext, hcommon, hown, hguarded⟩ | ⟨hne, htracks⟩⟩ := htracks.of_modify
    · have hself : (root, Mode.write) ∉ (x.thread t).held := by
        rw [here]
        exact List.not_mem_nil
      refine ⟨_, h.goOn (.outside hguarded hown) (.inl (hread List.not_mem_nil)) (.inl hcommon) (fun _ ho => ?_)
        (fun hmem => absurd hmem List.not_mem_nil) (fun _ _ _ => rfl), .single (.modify hnext)⟩
      exact (hcommon.trans (hwriter ho hself)).trans (hread List.not_mem_nil).symm
    · have hne' : (x.thread t).held ≠ [] := by rwa [here]
      refine ⟨_, h.goOn htracks ?_ (.inl rfl) (fun hnone ho => ?_) (fun hmem => ?_)
        (fun u hu hmem => absurd hmem (hfree hne' u hu)), ?_⟩
      · by_cases hmem : (root, Mode.write) ∈ held
        · exact .inr (halone (by rwa [here]))
        · exact .inl (hread hmem)
      · exact (hwriter ho (by rwa [here])).trans (hread hnone).symm
      · exact halone (by rwa [here])
      · rw [X.goOn_self]

/-- **Sections are atomic.** What the threads reach in any order of their steps, the serial system reaches
by whole sections: a thread in no section has the same of its own and the same still to do, and when none
has the lock alone, the common part is the same. -/
theorem exists_serial (hprograms : ∀ t, ∀ p ∈ programs t, p.Guarded root [] []) {p : P} {q : ι → Q}
    {x : Threads (P × (ι → Q)) L ι} (h : Reachable (fun t => Program.at t '' programs t) (p, q) x) :
    ∃ X, Serial.Reachable root programs p q X ∧ Tracked root x X := by
  induction h with
  | refl => exact ⟨_, .refl, .start p q⟩
  | tail _ hstep ih =>
    obtain ⟨X, hX, htracked⟩ := ih
    obtain ⟨Y, hY, hXY⟩ := htracked.step hprograms hstep
    cases hXY with
    | refl => exact ⟨X, hX, hY⟩
    | single hXY => exact ⟨Y, hX.tail hXY, hY⟩

end Threads

/-! ### Threads without interference -/

variable {σ τ : Type*} {may : Held L → L → Prop}

/-- A program over a larger state takes the same locks. -/
theorem Program.Balanced.zoom {view : τ → σ} {put : τ → σ → τ} {held held' : Held L} {p : Program σ L α}
    (hp : p.Balanced may held held') : (p.zoom view put).Balanced may held held' := by
  induction hp with
  | done a => exact .done a
  | acquire allowed _ ih => exact .acquire allowed ih
  | release _ ih => exact .release ih
  | get _ ih => exact .get fun s => ih _
  | modify _ ih => exact .modify ih
  | abort => exact .abort

namespace Threads

variable [DecidableEq ι]

/-- Where a thread has gone on from before does not matter. -/
theorem goOn_goOn (x : Threads σ L ι) (t : ι) (held held' : Held L) (p p' : Program σ L Unit) :
    (x.goOn t held p).goOn t held' p' = x.goOn t held' p' := by
  simp [goOn]

theorem goOn_others {x : Threads σ L ι} {t : ι} (others : ∀ u ≠ t, (x.thread u).held = []) (held : Held L)
    (p : Program σ L Unit) : ∀ u ≠ t, ((x.goOn t held p).thread u).held = [] := by
  intro u hu
  rw [goOn_of_ne hu]
  exact others u hu

variable [DecidableEq L] {programs : ι → Set (Program σ L Unit)}

/-- A thread runs a part of its program while no other has a lock or goes on. -/
theorem run_alone (hfresh : ∀ held l, may held l → ∀ p ∈ held, p.1 ≠ l) {α : Type} {t : ι} {held held' : Held L}
    {p : Program σ L α} (hp : p.Balanced may held held') {g : α → Program σ L Unit} {x : Threads σ L ι}
    (here : x.thread t = ⟨held, p.bind g⟩) (others : ∀ u ≠ t, (x.thread u).held = []) {a : α} {s : σ}
    (hrun : p.run x.shared = some (a, s)) :
    Relation.ReflTransGen (Step programs) x { x.goOn t held' (g a) with shared := s } := by
  induction hp generalizing x with
  | @done held b =>
    obtain ⟨rfl, rfl⟩ := Prod.mk.inj (Option.some.inj hrun)
    have hself : x.goOn t held (g b) = x := by
      rw [goOn, ← show x.thread t = ⟨held, g b⟩ from here, Function.update_eq_self]
    rw [hself]
  | @acquire held held' m l k allowed next ih =>
    have hstep : Step programs x (x.goOn t ((l, m) :: held) (k.bind g)) := by
      refine .acquire here fun u m' hmem => ?_
      by_cases hu : u = t
      · subst hu
        rw [here] at hmem
        exact absurd rfl (hfresh _ _ allowed _ hmem)
      · rw [others u hu] at hmem
        exact absurd hmem List.not_mem_nil
    have hrest := ih (goOn_self _ _ _ _) (goOn_others others _ _) hrun
    rw [goOn_goOn] at hrest
    exact hrest.head hstep
  | @release held held' m l k next ih =>
    have hstep : Step programs x (x.goOn t held (k.bind g)) := by
      have hrelease : Step programs x (x.goOn t (((l, m) :: held).eraseP fun p => p.1 = l) (k.bind g)) := .release here
      rwa [eraseP_last] at hrelease
    have hrest := ih (goOn_self _ _ _ _) (goOn_others others _ _) hrun
    rw [goOn_goOn] at hrest
    exact hrest.head hstep
  | get next ih =>
    have hrest := ih x.shared (goOn_self _ _ _ _) (goOn_others others _ _) hrun
    rw [goOn_goOn] at hrest
    exact hrest.head (.get here)
  | @modify held held' f k next ih =>
    have hrest := ih (x := { x.goOn t held (k.bind g) with shared := f x.shared }) (goOn_self _ _ _ _)
      (goOn_others others _ _) hrun
    refine Relation.ReflTransGen.head (.modify here) ?_
    simpa [goOn] using hrest
  | abort => exact nomatch hrun

end Threads

end PgRouter.Foundation
