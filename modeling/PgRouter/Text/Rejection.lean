import PgRouter.Authdb.Load
import PgRouter.Config.Configure

/-!
# What is rejected

A file that its parser does not understand should be rejected as a whole: an error should be returned,
and what has been loaded before should stay. But neither parser tells its caller: `parse` returns `0`
however its loop has ended (`Config.parse_rc`, `Authdb.parse_rc`), so what has been read up to the error is
loaded. A configuration is never rejected, nor is an authentication database (`not_rejects`).
-/

namespace PgRouter.Config

open Foundation Wire Text

variable {c : Context} {text : List Octet}

/-! ### The configuration -/

variable (text) in
/-- What `parse` gets to before a call of a parser function. -/
inductive Reached : Parser → Lexer LexFn → Prop where
  /-- The first call. -/
  | start : Reached parserInit (lexerInit text)
  /-- After a call that has returned `0`. -/
  | round {p p' : Parser} {l l' : Lexer LexFn} {f : ParseFn} : Reached p l → p.f = some f →
      (f.call p).run (emit rules) l = some ((0, p'), l') → Reached p' l'

/-- Some call of a parser function fails. -/
def Fails (text : List Octet) : Prop :=
  ∃ p l f rc p' l', Reached text p l ∧ p.f = some f ∧
    (f.call p).run (emit rules) l = some ((rc, p'), l') ∧ rc ≠ 0

/-- The text is rejected: an error is returned, and the context is as before. -/
def Rejects (c : Context) (text : List Octet) (reload : Bool) : Prop :=
  ∃ rc, rc ≠ 0 ∧ pgrConfigure c text reload = some (rc, c)

/-- `parse` returns `0`. -/
theorem parse_rc (n : ℕ) (p : Parser) : (parse n p).Yields fun x => ∀ y ∈ x, y.1 = 0 := by
  induction n generalizing p with
  | zero => exact fun y hy => absurd hy (Option.not_mem_none y)
  | succ n ih =>
    have hdone : ∀ q : Parser, ∀ y ∈ some ((0 : ℤ), q), y.1 = 0 := fun q y hy => by rw [← Option.mem_some.mp hy]
    cases hf : p.f with
    | none =>
      rw [parse_none hf]
      exact hdone p
    | some f =>
      rw [parse_some hf]
      refine (Consumer.yields_true _).bind fun x _ => ?_
      split_ifs
      · exact ih x.2
      · exact hdone x.2

theorem parseText_rc {rc : ℤ} {p : Parser} (h : parseText text = some (rc, p)) : rc = 0 := by
  obtain ⟨⟨x, l⟩, hrun, hx⟩ := Option.bind_eq_some_iff.mp h
  exact (parse_rc _ _).run hrun (rc, p) hx

/-- Without backends no failure is possible. -/
theorem fillAll_ne {p : Parser} {d : Stanza} {bs : List Stanza} (h : (fillAll p d bs).1 ≠ 0) :
    (fillAll p d bs).2 ≠ [] := by
  cases bs with
  | nil => exact absurd rfl h
  | cons b bs =>
    simp only [fillAll]
    split_ifs <;> exact List.cons_ne_nil _ _

/-- What `pgr_configure` returns is `0` when reloading, and the context has backends after an error at the start. -/
theorem pgrConfigure_cases {reload : Bool} {rc : ℤ} {c' : Context}
    (h : pgrConfigure c text reload = some (rc, c')) (hrc : rc ≠ 0) : reload = false ∧ c'.backends ≠ [] := by
  obtain ⟨⟨rc₀, p⟩, hparse, h⟩ := Option.bind_eq_some_iff.mp h
  obtain rfl := parseText_rc hparse
  obtain ⟨c₁, -, h⟩ := Option.bind_eq_some_iff.mp h
  cases reload with
  | true =>
    obtain ⟨rfl, -⟩ := Prod.mk.inj (Option.some.inj h)
    exact absurd rfl hrc
  | false =>
    obtain ⟨rfl, rfl⟩ := Prod.mk.inj (Option.some.inj h)
    exact ⟨rfl, fillAll_ne hrc⟩

end PgRouter.Config

namespace PgRouter.Authdb

open Foundation Wire Text

variable {c : Context} {text : List Octet}

/-! ### The authentication database -/

variable (text) in
/-- What `parse` gets to before a call of `parse_top`. -/
inductive Reached : Parser → Lexer LexFn → Prop where
  /-- The first call. -/
  | start : Reached parserInit (lexerInit text)
  /-- After a call that has returned `0`. -/
  | round {p p' : Parser} {l l' : Lexer LexFn} : Reached p l → p.f = true →
      (parseTop p).run (emit rules) l = some ((0, p'), l') → Reached p' l'

/-- Some entry is malformed: a call of `parse_top` fails, or takes more than one token and adds no entry. -/
def Malformed (text : List Octet) : Prop :=
  ∃ p l rc p' l', Reached text p l ∧ p.f = true ∧ (parseTop p).run (emit rules) l = some ((rc, p'), l') ∧
    (rc ≠ 0 ∨ (1 < ((parseTop p).trace (emit rules) l).length ∧ p'.entries = p.entries))

/-- The text is rejected: an error is returned, and the context is as before. -/
def Rejects (c : Context) (text : List Octet) : Prop := ∃ rc, rc ≠ 0 ∧ pgrAuthdb c text = some (rc, c)

/-- `parse` returns `0`. -/
theorem parse_rc (n : ℕ) (p : Parser) : (parse n p).Yields fun x => ∀ y ∈ x, y.1 = 0 := by
  induction n generalizing p with
  | zero => exact fun y hy => absurd hy (Option.not_mem_none y)
  | succ n ih =>
    have hdone : ∀ q : Parser, ∀ y ∈ some ((0 : ℤ), q), y.1 = 0 := fun q y hy => by rw [← Option.mem_some.mp hy]
    cases hf : p.f with
    | false =>
      rw [parse_false hf]
      exact hdone p
    | true =>
      rw [parse_true hf]
      refine (Consumer.yields_true _).bind fun x _ => ?_
      split_ifs
      · exact ih x.2
      · exact hdone x.2

theorem parseText_rc {rc : ℤ} {p : Parser} (h : parseText text = some (rc, p)) : rc = 0 := by
  obtain ⟨⟨x, l⟩, hrun, hx⟩ := Option.bind_eq_some_iff.mp h
  exact (parse_rc _ _).run hrun (rc, p) hx

/-- `pgr_authdb` returns `0`. -/
theorem pgrAuthdb_rc {rc : ℤ} {c' : Context} (h : pgrAuthdb c text = some (rc, c')) : rc = 0 := by
  obtain ⟨⟨rc₀, p⟩, hparse, h⟩ := Option.bind_eq_some_iff.mp h
  obtain rfl := parseText_rc hparse
  exact (Prod.mk.inj (Option.some.inj h)).1.symm

end PgRouter.Authdb

namespace PgRouter.Text

open Foundation Wire

/-! ### Nothing is rejected -/

/-- A text on which the parser fails is not rejected as a configuration, neither at the start nor when reloading,
and one with a malformed entry is not as an authentication database. -/
theorem not_rejects (text : List Octet) :
    (Config.Fails text → (∀ c, c.backends = [] → ¬Config.Rejects c text false) ∧
      ∀ c, ¬Config.Rejects c text true) ∧
    (Authdb.Malformed text → ∀ c, ¬Authdb.Rejects c text) := by
  refine ⟨fun _ => ⟨?_, ?_⟩, ?_⟩
  · rintro c hc ⟨rc, hrc, h⟩
    exact (Config.pgrConfigure_cases h hrc).2 hc
  · rintro c ⟨rc, hrc, h⟩
    exact Bool.noConfusion (Config.pgrConfigure_cases h hrc).1
  · rintro - c ⟨rc, hrc, h⟩
    exact hrc (Authdb.pgrAuthdb_rc h)

/-- A configuration with an error in its second line. -/
def badConfig : List Octet := octets "workers 5" ++ newline :: octets "bogus"

/-- An authentication database with an error in its second line. -/
def badAuthdb : List Octet := octets "a md5 x" ++ newline :: (octets "b" ++ newline :: octets "c md5 y")

/-- The first line is read, and the second is not. -/
theorem badConfig_fails : Config.Fails badConfig := by
  let p : Config.Parser := { Config.parserInit with workers := some 5 }
  let l : Lexer Config.LexFn := ⟨badConfig, 9, 9, some .any⟩
  have hreached : Config.Reached badConfig p l :=
    .round (f := .top) .start rfl (by decide +kernel)
  exact ⟨p, l, .top, 1, p.setF none, { l with pos := 14, start := 14 }, hreached, rfl, by decide +kernel, by decide⟩

/-- So is the entry of the second line. -/
theorem badAuthdb_malformed : Authdb.Malformed badAuthdb := by
  let p : Authdb.Parser := ⟨[(octets "a", octets "x")], true⟩
  let l (i : ℤ) : Lexer Authdb.LexFn := ⟨badAuthdb, i, i, some .any⟩
  have hfirst : Authdb.Reached badAuthdb p (l 7) := .round .start rfl (by decide +kernel)
  have hsecond : Authdb.Reached badAuthdb p (l 8) := .round hfirst rfl (by decide +kernel)
  exact ⟨p, l 8, 1, p.stop, l 10, hsecond, rfl, by decide +kernel, .inl (by decide)⟩

theorem not_rejects_bad :
    (¬Config.Rejects .zero badConfig false ∧ ¬Config.Rejects .zero badConfig true) ∧
      ¬Authdb.Rejects .zero badAuthdb :=
  ⟨⟨((not_rejects badConfig).1 badConfig_fails).1 .zero rfl, ((not_rejects badConfig).1 badConfig_fails).2 .zero⟩,
    (not_rejects badAuthdb).2 badAuthdb_malformed .zero⟩

/-- Both are loaded up to the error. -/
theorem bad_loaded :
    Config.Fails badConfig ∧ Authdb.Malformed badAuthdb ∧
      Config.pgrConfigure .zero badConfig false = some (0, { Context.zero with workers := 5 }) ∧
      Config.pgrConfigure .zero badConfig true = some (0, { Context.zero with workers := 5 }) ∧
      Authdb.pgrAuthdb .zero badAuthdb = some (0, { Context.zero with authdb := [(octets "a", octets "x")] }) :=
  ⟨badConfig_fails, badAuthdb_malformed, by decide +kernel, by decide +kernel, by decide +kernel⟩

end PgRouter.Text
