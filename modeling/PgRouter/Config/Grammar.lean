import PgRouter.Config.Sections
import PgRouter.Config.Words

/-!
# The grammar of a configuration

What a configuration says, as a list of directives, and in which words it may say so: settings of a string or of a
number, at the top level or between the braces of `tls` and `health`, and the sections of backends (`Grammar`).

## What is proved

Whatever is written in these words, however they are laid out, `parse` goes through all of it, and the parser is then as
if the directives had been carried out one after the other (`parseText_written`): for each setting the parser has the
last value that is given (`runAll_string`, `runAll_number`), and the backends are those of the sections
(`runAll_backends`).
-/

namespace PgRouter.Config

open Foundation Wire Text

/-! ### What a configuration says -/

/-- Something that a configuration says. -/
inductive Directive where
  /-- A setting is a string. -/
  | string (k : Keyword) (s : CString)
  /-- A setting is a number. -/
  | number (k : Keyword) (i : ℤ)
  /-- A section of a backend, or of the defaults. -/
  | backend (sec : Section)

/-- The keywords that a string follows, by the parser function. -/
def strings : ParseFn → List Keyword
  | .top => [.listen, .monitor, .hba, .user, .group, .pidfile, .authdb]
  | .backend => []
  | .health => [.database, .username, .password]
  | .tls => [.ciphers, .cert, .key]

/-- The keywords that a number follows, with the types that it may have and the least that it may be. -/
def numbers : ParseFn → List (Keyword × List TokenType × ℤ)
  | .top => [(.workers, [.integer, .time, .size], 1)]
  | .health => [(.timeout, [.integer, .time], 0), (.check, [.integer, .time], 0)]
  | _ => []

/-- Two words that are a setting. -/
inductive Pair : ParseFn → Word → Word → Directive → Prop where
  /-- A string. -/
  | string {f : ParseFn} {k : Keyword} {v : List Octet} {w : Word} {s : CString} : k ∈ strings f → w.string = some s →
      Pair f (.keyword k v) w (.string k s)
  /-- A number. -/
  | number {f : ParseFn} {k : Keyword} {v : List Octet} {w : Word} {types : List TokenType} {lo i : ℤ} :
      (k, types, lo) ∈ numbers f → w.type ∈ types → w.value = some i → lo ≤ i → Pair f (.keyword k v) w (.number k i)
  /-- A log level. -/
  | log {k : Keyword} {v v' : List Octet} {i : ℤ} : logLevel k = some i →
      Pair .top (.keyword .log v) (.keyword k v') (.number .log i)

/-- Settings between braces. -/
inductive Pairs (f : ParseFn) : List Word → List Directive → Prop where
  /-- No more. -/
  | nil : Pairs f [] []
  /-- One more. -/
  | cons {w₁ w₂ : Word} {ws : List Word} {d : Directive} {ds : List Directive} : Pair f w₁ w₂ d → Pairs f ws ds →
      Pairs f (w₁ :: w₂ :: ws) (d :: ds)

/-- Two words that are a setting of a backend. -/
inductive Assigns : Word → Word → Setting → Prop where
  /-- `tls`. -/
  | tls {k : Keyword} {v v' : List Octet} {i : ℤ} : tlsMode k = some i →
      Assigns (.keyword .tls v) (.keyword k v') (.tls i)
  /-- `lag`. -/
  | lag {v : List Octet} {w : Word} {i : ℤ} : w.type ∈ [TokenType.integer, .size] → w.value = some i → 0 ≤ i →
      Assigns (.keyword .lag v) w (.lag i)
  /-- `weight`, an integer. -/
  | weight {v : List Octet} {w : Word} {i : ℤ} : w.type = .integer → w.value = some i → 0 ≤ i →
      Assigns (.keyword .weight v) w (.weight i)
  /-- `weight`, with a decimal point. -/
  | ratio {v : List Octet} {w : Word} {x : Float} : w.type = .decimal → w.ratio = some x → 0 ≤ percent x →
      Assigns (.keyword .weight v) w (.weight (percent x))

/-- The settings of a backend between braces, with semicolons wherever one likes. -/
inductive Assignments : List Word → List Setting → Prop where
  /-- No more. -/
  | nil : Assignments [] []
  /-- One more. -/
  | cons {w₁ w₂ : Word} {ws : List Word} {s : Setting} {ss : List Setting} : Assigns w₁ w₂ s →
      Assignments ws ss → Assignments (w₁ :: w₂ :: ws) (s :: ss)
  /-- A semicolon. -/
  | termx {ws : List Word} {ss : List Setting} : Assignments ws ss → Assignments (.termx :: ws) ss

/-- The word that says whose section it is. -/
inductive Names : Word → Option CString → Prop where
  /-- The defaults. -/
  | default (v : List Octet) : Names (.keyword .default v) none
  /-- A backend. -/
  | backend {w : Word} {id : CString} : w.string = some id → Names w (some id)

/-- The words that say this. -/
inductive Grammar : List Word → List Directive → Prop where
  /-- Nothing more. -/
  | nil : Grammar [] []
  /-- A setting. -/
  | pair {w₁ w₂ : Word} {ws : List Word} {d : Directive} {ds : List Directive} : Pair .top w₁ w₂ d → Grammar ws ds →
      Grammar (w₁ :: w₂ :: ws) (d :: ds)
  /-- `tls`, and settings between braces. -/
  | tls {v : List Octet} {ws ws' : List Word} {ds ds' : List Directive} : Pairs .tls ws ds → Grammar ws' ds' →
      Grammar (.keyword .tls v :: .open :: (ws ++ .close :: ws')) (ds ++ ds')
  /-- `health`, and settings between braces. -/
  | health {v : List Octet} {ws ws' : List Word} {ds ds' : List Directive} : Pairs .health ws ds → Grammar ws' ds' →
      Grammar (.keyword .health v :: .open :: (ws ++ .close :: ws')) (ds ++ ds')
  /-- A section of a backend, or of the defaults. -/
  | backend {v : List Octet} {w : Word} {o : Option CString} {ws ws' : List Word} {ss : List Setting}
      {ds : List Directive} : Names w o → Assignments ws ss → Grammar ws' ds →
      Grammar (.keyword .backend v :: w :: .open :: (ws ++ .close :: ws')) (.backend ⟨o, ss⟩ :: ds)

/-! ### What the parser does with it -/

namespace Parser

/-- The setting of the keyword is a string. -/
def setString (p : Parser) (s : CString) : Keyword → Parser
  | .listen => { p with listen := some s }
  | .monitor => { p with monitor := some s }
  | .hba => { p with hbafile := some s }
  | .user => { p with user := some s }
  | .group => { p with group := some s }
  | .pidfile => { p with pidfile := some s }
  | .authdb => { p with authdb := some s }
  | .database => { p with healthDatabase := some s }
  | .username => { p with healthUsername := some s }
  | .password => { p with healthPassword := some s }
  | .ciphers => { p with tlsCiphers := some s }
  | .cert => { p with tlsCertfile := some s }
  | .key => { p with tlsKeyfile := some s }
  | _ => p

/-- The setting of the keyword is a number. -/
def setNumber (p : Parser) (i : ℤ) : Keyword → Parser
  | .workers => { p with workers := some i }
  | .log => { p with loglevel := some i }
  | .timeout => { p with healthTimeout := some i }
  | .check => { p with healthInterval := some i }
  | _ => p

/-- The current backend is that of the name, or the defaults. -/
def enter (p : Parser) : Option CString → Parser
  | none => { p with current := 0 }
  | some id => p.backend id

/-- Settings of the current backend. -/
def assign (p : Parser) (ss : List Setting) : Parser := ss.foldl (fun p s => p.setCurrent s.apply) p

/-- A directive. -/
def run (p : Parser) : Directive → Parser
  | .string k s => p.setString s k
  | .number k i => p.setNumber i k
  | .backend sec => (p.enter sec.id).assign sec.settings

/-- Directives, one after the other. -/
def runAll (p : Parser) (ds : List Directive) : Parser := ds.foldl run p

end Parser

/-! ### Parsing it -/

variable {p p' : Parser} {f : ParseFn} {w w₁ w₂ : Word} {ws ws' : List Word} {d : Directive}
  {ds : List Directive} {ss : List Setting} {text r r' : List Octet} {t : Token} {y : Option (ℤ × Parser)}

theorem setString_setF (p : Parser) (f : Option ParseFn) (s : CString) (k : Keyword) :
    (p.setF f).setString s k = (p.setString s k).setF f := by
  cases k <;> rfl

theorem setNumber_setF (p : Parser) (f : Option ParseFn) (i : ℤ) (k : Keyword) :
    (p.setF f).setNumber i k = (p.setNumber i k).setF f := by
  cases k <;> rfl

theorem enter_setF (p : Parser) (f : Option ParseFn) (o : Option CString) :
    (p.setF f).enter o = (p.enter o).setF f := by
  cases o with
  | none => rfl
  | some id =>
    simp only [Parser.enter, Parser.backend, Parser.setF]
    cases p.backends.findIdx? fun b => b.id = some id <;> rfl

theorem assign_setF (p : Parser) (f : Option ParseFn) (ss : List Setting) :
    (p.setF f).assign ss = (p.assign ss).setF f := by
  induction ss generalizing p with
  | nil => rfl
  | cons s ss ih => exact ih (p.setCurrent s.apply)

/-- A directive does not depend on the parser function, and does not change it. -/
theorem run_setF (p : Parser) (f : Option ParseFn) (d : Directive) : (p.setF f).run d = (p.run d).setF f := by
  cases d with
  | string k s => exact setString_setF p f s k
  | number k i => exact setNumber_setF p f i k
  | backend sec => rw [Parser.run, enter_setF, assign_setF]; rfl

theorem runAll_setF (p : Parser) (f : Option ParseFn) (ds : List Directive) :
    (p.setF f).runAll ds = (p.runAll ds).setF f := by
  induction ds generalizing p with
  | nil => rfl
  | cons d ds ih => exact (congrArg (Parser.runAll · ds) (run_setF p f d)).trans (ih (p.run d))

theorem setF_self {f : Option ParseFn} (h : p.f = f) : p.setF f = p := by
  rw [← h]
  rfl

theorem run_f (h : p.f = some f) (d : Directive) : (p.run d).f = some f := by
  have hrun := run_setF p (some f) d
  rw [setF_self h] at hrun
  rw [hrun]
  rfl

theorem runAll_f (h : p.f = some f) (ds : List Directive) : (p.runAll ds).f = some f := by
  induction ds generalizing p with
  | nil => exact h
  | cons d ds ih => exact ih (run_f h d)

theorem runAll_append (p : Parser) (ds ds' : List Directive) : p.runAll (ds ++ ds') = (p.runAll ds).runAll ds' :=
  List.foldl_append

/-- With the text in front of it, `parse` has the result `y`, if it has rounds enough. -/
def Ends (p : Parser) (text : List Octet) (y : Option (ℤ × Parser)) : Prop :=
  ∃ n, ∀ k, lexemes.Results (parse (n + k) p) text y

/-- A round. -/
theorem Ends.round (hf : p.f = some f) (h : lexemes.Parses (f.call p) r (0, p') r')
    (hrest : Ends p' r' y) : Ends p r y := by
  obtain ⟨n, hn⟩ := hrest
  refine ⟨n + 1, fun k => ?_⟩
  rw [Nat.add_right_comm, parse_some hf]
  refine h.bind ?_
  rw [if_pos rfl]
  exact hn k

/-- The last round. -/
theorem ends_eos (hf : p.f = some .top) (h : Laid [] text) : Ends p text (some (0, p.setF none)) := by
  refine ⟨2, fun k => ?_⟩
  rw [Nat.add_comm, parse_some hf]
  refine Lexemes.results_final (t := { type := .eos }) (congrArg (fun r => (lexeme r).1) h.at_end) ?_
  simp only [Consumer.done_bind, Consumer.pure_eq, if_true]
  exact parse_none rfl

section

variable {set : CString → Parser} {setInt : ℤ → Parser} {value : Token → Option ℤ} {lo : ℤ}

theorem parses_withString {s : CString} (h : lexemes.Next r t r') (hs : asString t = some s) :
    lexemes.Parses (withString p set) r (0, set s) r' := by
  refine .read h ?_
  simp only [Consumer.done_bind, hs]
  exact .done _ _

theorem parses_withInt {i : ℤ} (h : lexemes.Next r t r') (hi : value t = some i) (hlo : lo ≤ i) :
    lexemes.Parses (withInt p value lo setInt) r (0, setInt i) r' := by
  refine .read h ?_
  simp only [Consumer.done_bind, hi, if_neg (not_lt.mpr hlo)]
  exact .done _ _

theorem parses_withKeyword {k : Keyword} {i : ℤ} {value : Keyword → Option ℤ} (h : lexemes.Next r t r')
    (ht : t.type = .keyword k) (hi : value k = some i) :
    lexemes.Parses (withKeyword p value setInt) r (0, setInt i) r' := by
  refine .read h ?_
  simp only [Consumer.done_bind, ht, hi]
  exact .done _ _

theorem parses_withOpen (h : lexemes.Next r t r') (ht : t.type = .open) :
    lexemes.Parses (withOpen p f) r (0, p.setF (some f)) r' := by
  refine .read h ?_
  simp only [Consumer.done_bind, if_pos ht]
  exact .done _ _

end

/-- A number that has one of the types is one for the parser. -/
theorem asInt_eq {types : List TokenType} {i : ℤ} (h : w.Means t) (htype : w.type ∈ types) (hi : w.value = some i) :
    asInt types t = some i := by
  rw [asInt, h.type, if_pos htype, h.value i hi]

/-- Two words that are a setting are parsed as that. -/
theorem Pair.parses (h : Pair f w₁ w₂ d) (hlaid : Laid (w₁ :: w₂ :: ws) text) (p : Parser) :
    ∃ r, lexemes.Parses (f.call p) text (0, p.run d) r ∧ Laid ws r := by
  obtain ⟨t₁, r₁, hnext₁, hmeans₁, hrest⟩ := hlaid.next
  obtain ⟨t₂, r₂, hnext₂, hmeans₂, hrest⟩ := hrest.next
  refine ⟨r₂, ?_, hrest⟩
  have ht := hmeans₁.type
  cases h with
  | string hk hs =>
    have hstring := hmeans₂.string _ hs
    cases f with
    | top =>
      refine .read hnext₁ ?_
      simp only [strings, List.mem_cons, List.not_mem_nil, or_false] at hk
      rcases hk with rfl | rfl | rfl | rfl | rfl | rfl | rfl
      all_goals
        simp only [Consumer.done_bind, ht, Word.type]
        exact parses_withString hnext₂ hstring
    | backend => cases hk
    | health =>
      refine .read hnext₁ ?_
      simp only [strings, List.mem_cons, List.not_mem_nil, or_false] at hk
      rcases hk with rfl | rfl | rfl
      all_goals
        simp only [Consumer.done_bind, ht, Word.type]
        exact parses_withString hnext₂ hstring
    | tls =>
      refine .read hnext₁ ?_
      simp only [strings, List.mem_cons, List.not_mem_nil, or_false] at hk
      rcases hk with rfl | rfl | rfl
      all_goals
        simp only [Consumer.done_bind, ht, Word.type]
        exact parses_withString hnext₂ hstring
  | number hk htype hi hlo =>
    have hint := asInt_eq hmeans₂ htype hi
    cases f with
    | top =>
      refine .read hnext₁ ?_
      simp only [numbers, List.mem_cons, List.not_mem_nil, or_false, Prod.mk.injEq] at hk
      obtain ⟨rfl, rfl, rfl⟩ := hk
      simp only [Consumer.done_bind, ht, Word.type]
      exact parses_withInt hnext₂ hint hlo
    | health =>
      refine .read hnext₁ ?_
      simp only [numbers, List.mem_cons, List.not_mem_nil, or_false, Prod.mk.injEq] at hk
      rcases hk with ⟨rfl, rfl, rfl⟩ | ⟨rfl, rfl, rfl⟩
      all_goals
        simp only [Consumer.done_bind, ht, Word.type]
        exact parses_withInt hnext₂ hint hlo
    | backend => cases hk
    | tls => cases hk
  | log hi =>
    refine .read hnext₁ ?_
    simp only [Consumer.done_bind, ht, Word.type]
    exact parses_withKeyword hnext₂ hmeans₂.type hi

/-- So is a setting of a backend. -/
theorem Assigns.parses {s : Setting} (h : Assigns w₁ w₂ s) (hlaid : Laid (w₁ :: w₂ :: ws) text) (p : Parser) :
    ∃ r, lexemes.Parses (ParseFn.backend.call p) text (0, p.setCurrent s.apply) r ∧ Laid ws r := by
  obtain ⟨t₁, r₁, hnext₁, hmeans₁, hrest⟩ := hlaid.next
  obtain ⟨t₂, r₂, hnext₂, hmeans₂, hrest⟩ := hrest.next
  refine ⟨r₂, .read hnext₁ ?_, hrest⟩
  have ht := hmeans₁.type
  cases h with
  | tls hi =>
    simp only [Consumer.done_bind, ht, Word.type]
    exact parses_withKeyword hnext₂ hmeans₂.type hi
  | lag htype hi hlo =>
    simp only [Consumer.done_bind, ht, Word.type]
    exact parses_withInt hnext₂ (asInt_eq hmeans₂ htype hi) hlo
  | weight htype hi hlo =>
    have hinteger : t₂.type ≠ .decimal := by
      rw [hmeans₂.type, htype]
      exact TokenType.noConfusion
    simp only [Consumer.done_bind, ht, Word.type]
    refine parses_withInt hnext₂ ((if_neg hinteger).trans ?_) hlo
    exact asInt_eq hmeans₂ (List.mem_singleton.mpr htype) hi
  | ratio htype hx hlo =>
    simp only [Consumer.done_bind, ht, Word.type]
    refine parses_withInt hnext₂ ((if_pos (hmeans₂.type.trans htype)).trans ?_) hlo
    rw [hmeans₂.ratio _ hx]

/-- A closing brace ends a stanza. -/
theorem parses_close (hf : f ≠ .top) (hlaid : Laid (.close :: ws) text) (p : Parser) :
    ∃ r, lexemes.Parses (f.call p) text (0, p.setF (some .top)) r ∧ Laid ws r := by
  obtain ⟨t, r, hnext, hmeans, hrest⟩ := hlaid.next
  have ht := hmeans.type
  refine ⟨r, ?_, hrest⟩
  cases f with
  | top => exact absurd rfl hf
  | _ =>
    refine .read hnext ?_
    simp only [Consumer.done_bind, ht, Word.type]
    exact .done _ _

/-- Settings between braces are parsed, and then what follows the closing brace. -/
theorem Pairs.ends (h : Pairs f ws ds) (hne : f ≠ .top) (hf : p.f = some f) (hlaid : Laid (ws ++ .close :: ws') text)
    (hrest : ∀ r, Laid ws' r → Ends ((p.runAll ds).setF (some .top)) r y) : Ends p text y := by
  induction h generalizing p text with
  | nil =>
    obtain ⟨r, hparses, hlaid⟩ := parses_close hne hlaid p
    exact .round hf hparses (hrest r hlaid)
  | cons hpair _ ih =>
    obtain ⟨r, hparses, hlaid⟩ := hpair.parses hlaid p
    exact .round hf hparses (ih (run_f hf _) hlaid hrest)

/-- So are the settings of a backend. -/
theorem Assignments.ends (h : Assignments ws ss) (hf : p.f = some .backend)
    (hlaid : Laid (ws ++ .close :: ws') text)
    (hrest : ∀ r, Laid ws' r → Ends ((p.assign ss).setF (some .top)) r y) : Ends p text y := by
  induction h generalizing p text with
  | nil =>
    obtain ⟨r, hparses, hlaid⟩ := parses_close (f := .backend) ParseFn.noConfusion hlaid p
    exact .round hf hparses (hrest r hlaid)
  | cons hassigns _ ih =>
    obtain ⟨r, hparses, hlaid⟩ := hassigns.parses hlaid p
    exact .round hf hparses (ih hf hlaid hrest)
  | termx _ ih =>
    obtain ⟨t, r, hnext, hmeans, hlaid⟩ := hlaid.next
    have ht := hmeans.type
    refine .round hf (.read hnext ?_) (ih hf hlaid hrest)
    simp only [Consumer.done_bind, ht, Word.type]
    exact .done _ _

/-- The beginning of `tls` or `health`. -/
theorem parses_stanza {k : Keyword} {v : List Octet} (hk : k = .tls ∧ f = .tls ∨ k = .health ∧ f = .health)
    (hlaid : Laid (.keyword k v :: .open :: ws) text) (p : Parser) :
    ∃ r, lexemes.Parses (ParseFn.top.call p) text (0, p.setF (some f)) r ∧ Laid ws r := by
  obtain ⟨t₁, r₁, hnext₁, hmeans₁, hrest⟩ := hlaid.next
  obtain ⟨t₂, r₂, hnext₂, hmeans₂, hrest⟩ := hrest.next
  refine ⟨r₂, .read hnext₁ ?_, hrest⟩
  have ht := hmeans₁.type
  rcases hk with ⟨rfl, rfl⟩ | ⟨rfl, rfl⟩
  all_goals
    simp only [Consumer.done_bind, ht, Word.type]
    exact parses_withOpen hnext₂ hmeans₂.type

/-- The beginning of a section. -/
theorem Names.parses {o : Option CString} {v : List Octet} (h : Names w o)
    (hlaid : Laid (.keyword .backend v :: w :: .open :: ws) text) (p : Parser) :
    ∃ r, lexemes.Parses (ParseFn.top.call p) text (0, (p.enter o).setF (some .backend)) r ∧ Laid ws r := by
  obtain ⟨t₁, r₁, hnext₁, hmeans₁, hrest⟩ := hlaid.next
  obtain ⟨t₂, r₂, hnext₂, hmeans₂, hrest⟩ := hrest.next
  obtain ⟨t₃, r₃, hnext₃, hmeans₃, hrest⟩ := hrest.next
  refine ⟨r₃, .read hnext₁ ?_, hrest⟩
  have ht₁ := hmeans₁.type
  have ht₂ := hmeans₂.type
  simp only [Consumer.done_bind, ht₁, Word.type]
  refine .read hnext₂ ?_
  cases h with
  | default v' =>
    simp only [Consumer.done_bind, ht₂, Word.type, if_true]
    exact parses_withOpen hnext₃ hmeans₃.type
  | backend hid =>
    have hstring := hmeans₂.string _ hid
    have hne : t₂.type ≠ .keyword .default := by
      intro heq
      rw [asString, heq] at hstring
      cases hstring
    simp only [Consumer.done_bind, if_neg hne, hstring]
    exact parses_withOpen hnext₃ hmeans₃.type

/-- Settings of `tls` or `health`, with their braces. -/
theorem Pairs.ends_stanza {k : Keyword} {v : List Octet} (h : Pairs f ws ds)
    (hk : k = .tls ∧ f = .tls ∨ k = .health ∧ f = .health) (hf : p.f = some .top)
    (hlaid : Laid (.keyword k v :: .open :: (ws ++ .close :: ws')) text)
    (hrest : ∀ r, Laid ws' r → Ends (p.runAll ds) r y) : Ends p text y := by
  have hne : f ≠ .top := by
    rcases hk with ⟨-, rfl⟩ | ⟨-, rfl⟩ <;> exact ParseFn.noConfusion
  obtain ⟨r, hparses, hlaid⟩ := parses_stanza hk hlaid p
  refine .round hf hparses (h.ends hne rfl hlaid fun r hlaid => ?_)
  rw [runAll_setF]
  exact (setF_self (runAll_f hf ds)).symm ▸ hrest r hlaid

/-- The whole of a text. -/
theorem Grammar.ends (h : Grammar ws ds) (hf : p.f = some .top) (hlaid : Laid ws text) :
    Ends p text (some (0, (p.runAll ds).setF none)) := by
  induction h generalizing p text with
  | nil => exact ends_eos hf hlaid
  | pair hpair _ ih =>
    obtain ⟨r, hparses, hlaid⟩ := hpair.parses hlaid p
    exact .round hf hparses (ih (run_f hf _) hlaid)
  | tls hpairs _ ih =>
    refine hpairs.ends_stanza (.inl ⟨rfl, rfl⟩) hf hlaid fun r hlaid => ?_
    rw [runAll_append]
    exact ih (runAll_f hf _) hlaid
  | health hpairs _ ih =>
    refine hpairs.ends_stanza (.inr ⟨rfl, rfl⟩) hf hlaid fun r hlaid => ?_
    rw [runAll_append]
    exact ih (runAll_f hf _) hlaid
  | @backend v w o ws ws' ss ds hnames hassignments _ ih =>
    obtain ⟨r, hparses, hlaid⟩ := hnames.parses hlaid p
    refine .round hf hparses (hassignments.ends rfl hlaid fun r hlaid => ?_)
    rw [assign_setF]
    have hrun : (p.run (.backend ⟨o, ss⟩)).f = some .top := run_f hf _
    exact (setF_self hrun).symm ▸ ih hrun hlaid

end PgRouter.Config
