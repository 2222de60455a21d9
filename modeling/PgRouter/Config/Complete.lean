import PgRouter.Config.Progress
import PgRouter.Text.Rejection

/-!
# Configurations that are parsed completely

If no call of a parser function fails, `parse` is a sequence of successful rounds up to the end of the text
(`Rounds`, `exists_rounds`), each of which takes one, two or three tokens (`Round`, `call_round`). What the
text means can therefore be read off its tokens.
-/

namespace PgRouter.Config

open Foundation Wire Text

variable {src text : List Octet} {p p' : Parser} {i i' : ℤ} {ts : List Token}

/-- No call of a parser function fails. -/
def Completes (text : List Octet) : Prop := ¬Fails text

/-- The tokens that `parse` takes. -/
def tokens (text : List Octet) : List Token :=
  ((parse (text.length + 2) parserInit).trace (emit rules) (lexerInit text)).map fun x => x.2.1

/-- Up to `n` calls succeed, up to the last one. -/
def succeeds : ℕ → Parser → Lexer LexFn → Bool
  | 0, p, _ => p.f.isNone
  | n + 1, p, l =>
    match p.f with
    | none => true
    | some f =>
      match (f.call p).run (emit rules) l with
      | some ((rc, p), l) => rc = 0 && succeeds n p l
      | none => false

/-- Whether a text is parsed completely can be computed. -/
theorem completes_of_succeeds {n : ℕ} (h : succeeds n parserInit (lexerInit text)) :
    Completes text := by
  have hreached : ∀ {p l}, Reached text p l → ∃ n, succeeds n p l = true := by
    intro p l hpl
    induction hpl with
    | start => exact ⟨n, h⟩
    | round _ hf hcall ih =>
      obtain ⟨n, hn⟩ := ih
      cases n with
      | zero =>
        rw [succeeds, hf] at hn
        cases hn
      | succ n =>
        simp only [succeeds, hf, hcall, Bool.and_eq_true] at hn
        exact ⟨n, hn.2⟩
  rintro ⟨p, l, f, rc, p', l', hpl, hf, hcall, hrc⟩
  obtain ⟨n, hn⟩ := hreached hpl
  cases n with
  | zero =>
    rw [succeeds, hf] at hn
    cases hn
  | succ n =>
    simp only [succeeds, hf, hcall, Bool.and_eq_true, decide_eq_true_eq] at hn
    exact hrc hn.1

/-! ### Rounds -/

variable (src) in
/-- Successful rounds from a parser and a position on, the tokens they take, and what becomes of the parser. -/
inductive Rounds : Parser → ℤ → List Token → Parser → Prop where
  /-- The end. -/
  | stop {p : Parser} {i : ℤ} : p.f = none → Rounds p i [] p
  /-- A round. -/
  | round {p p' p'' : Parser} {i i' : ℤ} {f : ParseFn} {ts : List Token} : p.f = some f →
      (f.call p).eval (lexemes.peek src) i = ((0, p'), i') → Rounds p' i' ts p'' →
      Rounds p i ((f.call p).taken (lexemes.peek src) i ++ ts) p''

/-- If none fails, the loop of `parse` consists of successful rounds. -/
theorem exists_rounds_of_reached (hcompletes : Completes text) (n : ℕ) (p : Parser) (i : ℤ) (hn : 1 ≤ n)
    (hreached : p.f ≠ none → Reached text p (Lexer.tokenAt text .any i))
    (hleft : p.f ≠ none → 0 ≤ i ∧ i ≤ text.length ∧ text.length + 2 ≤ n + i) :
    ∃ p', ((parse n p).eval (lexemes.peek text) i).1 = some (0, p') ∧
      Rounds text p i ((parse n p).taken (lexemes.peek text) i) p' := by
  induction n generalizing p i with
  | zero => omega
  | succ n ih =>
    cases hf : p.f with
    | none =>
      rw [parse_none hf]
      exact ⟨p, rfl, .stop hf⟩
    | some f =>
      have hsome : p.f ≠ none := by
        rw [hf]
        exact Option.some_ne_none f
      obtain ⟨h0, hi, hbound⟩ := hleft hsome
      have hadvances := @call_advances text i f p h0 hi
      obtain ⟨l, hrun, -, hgoes⟩ := lexemes.run_emit (call_ends f p) text i
      rw [parse_some hf, Consumer.eval_bind, Consumer.taken_bind]
      obtain ⟨⟨⟨rc, q⟩, j⟩, hx⟩ : ∃ x, (f.call p).eval (lexemes.peek text) i = x := ⟨_, rfl⟩
      rw [hx] at hadvances hrun hgoes ⊢
      dsimp only at hadvances hrun hgoes ⊢
      obtain rfl : rc = 0 := by
        by_contra hrc
        exact hcompletes ⟨p, _, f, rc, q, l, hreached hsome, hf, hrun, hrc⟩
      rw [if_pos rfl]
      have hnext : q.f ≠ none → Reached text q (Lexer.tokenAt text .any j) := fun hnext => by
        have hl := hgoes (not_or.mpr ⟨not_not_intro rfl, hnext⟩)
        exact .round (hreached hsome) hf (hl ▸ hrun)
      obtain ⟨p'', heval, hrounds⟩ := ih q j (by omega) hnext fun hnext => by
        obtain ⟨hlt, hle⟩ := hadvances rfl hnext
        exact ⟨by omega, hle, by omega⟩
      exact ⟨p'', heval, .round hf hx hrounds⟩

/-- A text that is parsed completely is a sequence of rounds. -/
theorem exists_rounds (hcompletes : Completes text) :
    ∃ p, parseText text = some (0, p) ∧ Rounds text parserInit 0 (tokens text) p := by
  obtain ⟨p, heval, hrounds⟩ := exists_rounds_of_reached hcompletes (text.length + 2) parserInit 0 (by omega)
    (fun _ => .start) fun _ => ⟨le_rfl, Int.natCast_nonneg _, by omega⟩
  obtain ⟨l, hrun, htrace, -⟩ := lexemes.run_emit (parse_ends (text.length + 2) parserInit) text 0
  refine ⟨p, ?_, ?_⟩
  · have hrun' : (parse (text.length + 2) parserInit).run (emit rules) (lexerInit text) =
      some (some (0, p), l) := by
      rw [← heval]
      exact hrun
    rw [parseText, hrun']
    rfl
  · rw [← htrace] at hrounds
    exact hrounds

/-! ### One round -/

/-- A setting of a backend. -/
inductive Setting where
  /-- `tls`. -/
  | tls (i : ℤ)
  /-- `lag`. -/
  | lag (i : ℤ)
  /-- `weight`. -/
  | weight (i : ℤ)

/-- What it sets. -/
def Setting.apply : Setting → Stanza → Stanza
  | tls i, b => { b with tls := some i }
  | lag i, b => { b with lag := some i }
  | weight i, b => { b with weight := some i }

/-- The setting that two tokens are. -/
def setting (t1 t2 : Token) : Option Setting :=
  match t1.type with
  | .keyword .tls =>
    match t2.type with
    | .keyword k => (tlsMode k).map .tls
    | _ => none
  | .keyword .lag => (asInt [.integer, .size] t2).map .lag
  | .keyword .weight => (if t2.type = .decimal then some (percent t2.f) else asInt [.integer] t2).map .weight
  | _ => none

/-- The name of a backend, none for the defaults. -/
def name (t : Token) : Option CString := if t.type = .keyword .default then none else asString t

/-- The list with the backend of that name, and its place. -/
def enter (bs : List Stanza) : Option CString → List Stanza × ℕ
  | none => (bs, 0)
  | some id =>
    match bs.findIdx? fun b => b.id = some id with
    | some i => (bs, i)
    | none => (bs ++ [makeBackend (some id)], bs.length)

/-- The tokens of a call that succeeds, and what becomes of the backends and of the parser function. -/
inductive Round (p : Parser) : ParseFn → List Token → Parser → Prop where
  /-- The end of the text. -/
  | eos {t : Token} : t.type = .eos → Round p .top [t] (p.setF none)
  /-- The beginning of a section. -/
  | backend {t1 t2 t3 : Token} {p' : Parser} : t1.type = .keyword .backend → t3.type = .open →
      (p'.backends, p'.current) = enter p.backends (name t2) → p'.f = some .backend → Round p .top [t1, t2, t3] p'
  /-- The beginning of another stanza. -/
  | stanza {t1 t2 : Token} {f : ParseFn} :
      (t1.type = .keyword .tls ∧ f = .tls ∨ t1.type = .keyword .health ∧ f = .health) →
      Round p .top [t1, t2] (p.setF (some f))
  /-- A setting that is not one of a stanza. -/
  | top {t1 t2 : Token} {p' : Parser} : (∀ k, t1.type = .keyword k → k ≠ .backend ∧ k ≠ .tls ∧ k ≠ .health) →
      p'.backends = p.backends → p'.f = p.f → Round p .top [t1, t2] p'
  /-- The end of a stanza. -/
  | close {t : Token} {f : ParseFn} : f ≠ .top → t.type = .close → Round p f [t] (p.setF (some .top))
  /-- A semicolon. -/
  | termx {t : Token} : t.type = .termx → Round p .backend [t] p
  /-- A setting of a backend. -/
  | assign {t1 t2 : Token} {s : Setting} : t1.type ≠ .close → t1.type ≠ .termx → setting t1 t2 = some s →
      Round p .backend [t1, t2] (p.setCurrent s.apply)
  /-- Another setting. -/
  | other {t1 t2 : Token} {f : ParseFn} {p' : Parser} : f = .health ∨ f = .tls → t1.type ≠ .close → t1.type ≠ .termx →
      p'.backends = p.backends → p'.f = p.f → Round p f [t1, t2] p'

section

variable {next : ℤ → Token × ℤ}

theorem withString_ok {set : CString → Parser} (h : (withString p set).eval next i = ((0, p'), i')) :
    (withString p set).taken next i = [(next i).1] ∧ ∃ s, p' = set s := by
  simp only [withString, Consumer.token, Consumer.bind_eq, Consumer.read_bind, Consumer.done_bind, Consumer.eval_read,
    Consumer.taken_read] at h ⊢
  cases hs : asString (next i).1 with
  | none =>
    rw [hs] at h
    cases h
  | some s =>
    rw [hs] at h
    cases h
    exact ⟨rfl, s, rfl⟩

theorem withInt_ok {value : Token → Option ℤ} {lo : ℤ} {set : ℤ → Parser}
    (h : (withInt p value lo set).eval next i = ((0, p'), i')) :
    (withInt p value lo set).taken next i = [(next i).1] ∧ ∃ n, value (next i).1 = some n ∧ p' = set n := by
  simp only [withInt, Consumer.token, Consumer.bind_eq, Consumer.read_bind, Consumer.done_bind, Consumer.eval_read,
    Consumer.taken_read] at h ⊢
  cases hs : value (next i).1 with
  | none =>
    rw [hs] at h
    cases h
  | some n =>
    rw [hs] at h
    dsimp only [Consumer.pure_eq, Consumer.eval_done] at h
    split_ifs at h
    · cases h
    · cases h
      exact ⟨rfl, n, rfl, rfl⟩

theorem withKeyword_ok {value : Keyword → Option ℤ} {set : ℤ → Parser}
    (h : (withKeyword p value set).eval next i = ((0, p'), i')) :
    (withKeyword p value set).taken next i = [(next i).1] ∧
      ∃ k n, (next i).1.type = .keyword k ∧ value k = some n ∧ p' = set n := by
  simp only [withKeyword, Consumer.token, Consumer.bind_eq, Consumer.read_bind, Consumer.done_bind, Consumer.eval_read,
    Consumer.taken_read] at h ⊢
  cases ht : (next i).1.type with
  | keyword k =>
    simp only [ht] at h ⊢
    cases hs : value k with
    | none =>
      rw [hs] at h
      cases h
    | some n =>
      rw [hs] at h
      cases h
      exact ⟨rfl, k, n, rfl, hs, rfl⟩
  | _ =>
    simp only [ht] at h
    cases h

theorem withOpen_ok {f : ParseFn} (h : (withOpen p f).eval next i = ((0, p'), i')) :
    (withOpen p f).taken next i = [(next i).1] ∧ (next i).1.type = .open ∧ p' = p.setF (some f) := by
  simp only [withOpen, Consumer.token, Consumer.bind_eq, Consumer.read_bind, Consumer.done_bind, Consumer.eval_read,
    Consumer.taken_read] at h ⊢
  split_ifs at h ⊢ with hopen
  · cases h
    exact ⟨rfl, hopen, rfl⟩
  · cases h

theorem Round.ofTop {t1 t2 : Token} {k : Keyword} (ht : t1.type = .keyword k)
    (hk : k ≠ .backend ∧ k ≠ .tls ∧ k ≠ .health) (hbackends : p'.backends = p.backends) (hf : p'.f = p.f) :
    Round p .top [t1, t2] p' := by
  refine .top (fun k' hk' => ?_) hbackends hf
  obtain rfl : k = k' := TokenType.keyword.inj (ht.symm.trans hk')
  exact hk

theorem backend_enter (p : Parser) (id : CString) :
    ((p.backend id).backends, (p.backend id).current) = enter p.backends (some id) := by
  simp only [Parser.backend, enter]
  cases p.backends.findIdx? fun b => b.id = some id <;> rfl

theorem Round.ofBackend {t1 t2 : Token} {k : Keyword} {s : Setting} (ht : t1.type = .keyword k)
    (hs : setting t1 t2 = some s) : Round p .backend [t1, t2] (p.setCurrent s.apply) :=
  .assign (by rw [ht]; exact TokenType.noConfusion) (by rw [ht]; exact TokenType.noConfusion) hs

theorem Round.ofOther {t1 t2 : Token} {f : ParseFn} {k : Keyword} (hf : f = .health ∨ f = .tls)
    (ht : t1.type = .keyword k) (hbackends : p'.backends = p.backends) (hf' : p'.f = p.f) :
    Round p f [t1, t2] p' :=
  .other hf (by rw [ht]; exact TokenType.noConfusion) (by rw [ht]; exact TokenType.noConfusion) hbackends hf'

/-- At the top level: a setting, a group of settings, or a backend. -/
theorem parseTop_round (h : (parseTop p).eval next i = ((0, p'), i')) :
    Round p .top ((parseTop p).taken next i) p' := by
  simp only [parseTop, Consumer.token, Consumer.bind_eq, Consumer.read_bind, Consumer.done_bind,
    Consumer.eval_read, Consumer.taken_read] at h ⊢
  split at h
  all_goals try
    -- a string
    obtain ⟨htaken, s, rfl⟩ := withString_ok h
    rw [htaken]
    exact .ofTop ‹_› (by decide) rfl rfl
  · obtain ⟨htaken, k, n, -, -, rfl⟩ := withKeyword_ok h
    rw [htaken]
    exact .ofTop ‹_› (by decide) rfl rfl
  · obtain ⟨htaken, n, -, rfl⟩ := withInt_ok h
    rw [htaken]
    exact .ofTop ‹_› (by decide) rfl rfl
  · obtain ⟨htaken, -, rfl⟩ := withOpen_ok h
    rw [htaken]
    exact .stanza (.inl ⟨‹_›, rfl⟩)
  · obtain ⟨htaken, -, rfl⟩ := withOpen_ok h
    rw [htaken]
    exact .stanza (.inr ⟨‹_›, rfl⟩)
  · rename_i ht
    simp only [Consumer.eval_read, Consumer.taken_read] at h ⊢
    split_ifs at h ⊢ with hdefault
    · obtain ⟨htaken, hopen, rfl⟩ := withOpen_ok h
      rw [htaken]
      refine .backend ht hopen ?_ rfl
      rw [name, if_pos hdefault]
      rfl
    · cases hs : asString (next (next i).2).1 with
      | none =>
        rw [hs] at h
        cases h
      | some s =>
        rw [hs] at h
        obtain ⟨htaken, hopen, rfl⟩ := withOpen_ok h
        rw [htaken]
        refine .backend ht hopen ?_ rfl
        rw [name, if_neg hdefault, hs]
        exact backend_enter p s
  · cases h
    exact .eos ‹_›
  · cases h

/-- In the settings of a backend. -/
theorem parseBackend_round (h : (parseBackend p).eval next i = ((0, p'), i')) :
    Round p .backend ((parseBackend p).taken next i) p' := by
  simp only [parseBackend, Consumer.token, Consumer.bind_eq, Consumer.read_bind, Consumer.done_bind,
    Consumer.eval_read, Consumer.taken_read] at h ⊢
  split at h
  · obtain ⟨htaken, k, n, hk, hn, rfl⟩ := withKeyword_ok h
    rename_i ht
    rw [htaken]
    refine .ofBackend (s := .tls n) ht ?_
    simp only [setting, ht, hk, hn, Option.map_some]
  · obtain ⟨htaken, n, hn, rfl⟩ := withInt_ok h
    rename_i ht
    rw [htaken]
    refine .ofBackend (s := .lag n) ht ?_
    simp only [setting, ht, hn, Option.map_some]
  · obtain ⟨htaken, n, hn, rfl⟩ := withInt_ok h
    rename_i ht
    rw [htaken]
    refine .ofBackend (s := .weight n) ht ?_
    simp only [setting, ht, hn, Option.map_some]
  · cases h
    exact .close ParseFn.noConfusion ‹_›
  · cases h
    exact .termx ‹_›
  · cases h

/-- In the settings of the health checks. -/
theorem parseHealth_round (h : (parseHealth p).eval next i = ((0, p'), i')) :
    Round p .health ((parseHealth p).taken next i) p' := by
  simp only [parseHealth, Consumer.token, Consumer.bind_eq, Consumer.read_bind, Consumer.done_bind,
    Consumer.eval_read, Consumer.taken_read] at h ⊢
  split at h
  all_goals try
    -- a string
    obtain ⟨htaken, s, rfl⟩ := withString_ok h
    rw [htaken]
    exact .ofOther (.inl rfl) ‹_› rfl rfl
  · obtain ⟨htaken, n, -, rfl⟩ := withInt_ok h
    rw [htaken]
    exact .ofOther (.inl rfl) ‹_› rfl rfl
  · obtain ⟨htaken, n, -, rfl⟩ := withInt_ok h
    rw [htaken]
    exact .ofOther (.inl rfl) ‹_› rfl rfl
  · cases h
    exact .close ParseFn.noConfusion ‹_›
  · cases h

/-- In the settings of TLS. -/
theorem parseTls_round (h : (parseTls p).eval next i = ((0, p'), i')) :
    Round p .tls ((parseTls p).taken next i) p' := by
  simp only [parseTls, Consumer.token, Consumer.bind_eq, Consumer.read_bind, Consumer.done_bind,
    Consumer.eval_read, Consumer.taken_read] at h ⊢
  split at h
  all_goals try
    -- a string
    obtain ⟨htaken, s, rfl⟩ := withString_ok h
    rw [htaken]
    exact .ofOther (.inr rfl) ‹_› rfl rfl
  · cases h
    exact .close ParseFn.noConfusion ‹_›
  · cases h

/-- What a call does that succeeds. -/
theorem call_round {f : ParseFn} (h : (f.call p).eval next i = ((0, p'), i')) :
    Round p f ((f.call p).taken next i) p' := by
  cases f with
  | top => exact parseTop_round h
  | backend => exact parseBackend_round h
  | health => exact parseHealth_round h
  | tls => exact parseTls_round h

end

end PgRouter.Config
