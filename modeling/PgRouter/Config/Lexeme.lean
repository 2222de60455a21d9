import Mathlib.Data.List.TakeWhile
import PgRouter.Config.Lexer
import PgRouter.Text.Tokens

/-!
# The tokens of a configuration

What the lexer delivers, and by how many octets it advances then (`lexeme`, `lexemes`). Their number is less
than that of the octets that make the token where the text ends with it (`cut`), and zero or even `-1` for
some numbers.
-/

namespace PgRouter.Config

open Wire Text

/-! ### The beginning of a text -/

/-- A token with the first `len` octets of `r` for its value. -/
def valued (t : Token) (r : List Octet) (len : ℤ) : Token × ℤ := ({ t with value := r.take len.toNat }, len)

/-- The digits at the beginning. -/
def digits (r : List Octet) : List Octet := r.takeWhile (· ∈ C_NUMERIC)

/-- What follows them. -/
def afterDigits (r : List Octet) : List Octet := r.dropWhile (· ∈ C_NUMERIC)

/-- What follows `k + 1` groups of digits with dots between them, if there are that many. -/
def groups : ℕ → List Octet → Option (List Octet)
  | 0, r => if digits r = [] then none else some (afterDigits r)
  | k + 1, r =>
    if digits r = [] then none
    else
      match afterDigits r with
      | [] => none
      | c :: q => if c = ch '.' then groups k q else none

/-- Past a NUL. -/
def pastNul (k : ℕ) : List Octet → ℕ × List Octet
  | [] => (k, [])
  | c :: q => if c = 0 then (k + 1, q) else (k, c :: q)

/-- The value of digits, after digits of the value `i`. -/
def denoted (i : UInt32) (d : List Octet) : UInt32 := d.foldl (fun i c => i * 10 + digit c) i

/-- The `double` with the integer `i`, and the digits `d` behind the decimal point. -/
def fraction (i : UInt32) (d : List Octet) : Float := (d.foldl decimalStep (i.toFloat, 10)).1

/-- The type and the length of a token, and where the lexer is after it. -/
abbrev Lexeme := Token × ℤ

/-- A bareword, or a keyword. -/
def wordLexeme (r : List Octet) : Lexeme :=
  let len := cut (1 + (r.tail.takeWhile (· ∈ WORD)).length) (r.tail.dropWhile (· ∈ WORD))
  match findKeyword (r.take len.toNat) with
  | some k => ({ type := .keyword k }, len)
  | none => valued { type := .bareword } r len

/-- A port, after `len` octets and a colon. -/
def portLexeme (r : List Octet) (len : ℕ) (q : List Octet) : Lexeme :=
  if digits q = [] then ({ type := .error }, 0)
  else valued { type := .address } r (cut (len + 1 + (digits q).length) (afterDigits q))

/-- An address, before `q`. -/
def addressLexeme (r q : List Octet) : Lexeme :=
  match q with
  | [] => valued { type := .address } r (cut r.length [])
  | c :: p =>
    if c = ch ':' then portLexeme r (r.length - q.length) p
    else valued { type := .address } r (r.length - q.length : ℕ)

/-- A number of `k` octets with the value `ival`, before `q`. -/
def unitLexeme (r : List Octet) (ival : UInt32) (k : ℕ) (q : List Octet) : Lexeme :=
  match q with
  | [] => valued { type := .time, i := ival * timeFactor 0 } r 0
  | c :: q =>
    if c = ch '.' then
      valued { type := .decimal, f := fraction ival (digits q) } r
        ((pastNul (k + 1 + (digits q).length) (afterDigits q)).1 : ℕ)
    else if c = ch 'b' ∨ c = ch 'B' then valued { type := .size, i := ival * sizeFactor c } r (k + 1 : ℕ)
    else if strchr (octets "kKmMgGbB") c then
      let c' := q.headD 0
      if c' = ch 'b' ∨ c' = ch 'B' then valued { type := .size, i := ival * sizeFactor c } r (k + 2 : ℕ)
      else if strchr (octets "sSmMhH") c' then valued { type := .time, i := ival * timeFactor c' } r 0
      else valued { type := .integer, i := ival } r (-1)
    else if strchr (octets "sSmMhH") c then valued { type := .time, i := ival * timeFactor c } r (k + 1 : ℕ)
    else valued { type := .integer, i := ival } r k

/-- A number that is not an address. -/
def numberLexeme (r : List Octet) : Lexeme :=
  let (k, q) := pastNul (digits r).length (afterDigits r)
  unitLexeme r (denoted 0 (digits r)) k q

/-- What begins with a digit. -/
def numericLexeme (r : List Octet) : Lexeme :=
  match groups 3 r.tail with
  | some q => addressLexeme r q
  | none => numberLexeme r

/-- What begins with an asterisk, before `q`. -/
def wildcardLexeme (r q : List Octet) : Lexeme :=
  match q with
  | [] => ({ type := .error }, 0)
  | c :: p => if c = ch ':' then portLexeme r 1 p else ({ type := .error }, 0)

/-- What the lexer delivers, and by how much it advances, where blanks and comments have been skipped. -/
def lexeme (r : List Octet) : Lexeme :=
  match r with
  | [] => ({ type := .eos }, 0)
  | c :: q =>
    if c = 0 then ({ type := .eos }, 0)
    else if c = 0x7b then ({ type := .open }, 1)
    else if c = 0x7d then ({ type := .close }, 1)
    else if c = ch ';' then ({ type := .termx }, 1)
    else if c = 0x27 ∨ c = 0x22 then quoted (fun value => { type := .qstring, value := value }) { type := .error } c q
    else if isdigit c then numericLexeme r
    else if isalnum c ∨ c = ch '/' then wordLexeme r
    else if c = ch '*' then wildcardLexeme r q
    else ({ type := .error }, 0)

/-- With these tokens the lexer is at an end. -/
def Final (t : Token) : Prop := t.type = .eos ∨ t.type = .error

set_option maxRecDepth 4000 in
/-- `C_NUMERIC` has the digits. -/
theorem isdigit_iff_mem : ∀ c : Octet, isdigit c ↔ c ∈ C_NUMERIC := forall_octet (by decide)

set_option maxRecDepth 4000 in
/-- What begins a number, a word or an address begins no other token, and is neither a blank nor a comment. -/
theorem begins_value : ∀ c : Octet, isdigit c ∨ isalnum c ∨ c = ch '/' ∨ c = ch '*' →
    (¬isspace c ∧ c ≠ ch '#') ∧ ¬c = 0 ∧ ¬c = 0x7b ∧ ¬c = 0x7d ∧ ¬c = ch ';' ∧ ¬(c = 0x27 ∨ c = 0x22) :=
  forall_octet (by decide)

theorem lexeme_of_value {c : Octet} (h : isdigit c ∨ isalnum c ∨ c = ch '/' ∨ c = ch '*') (q : List Octet) :
    lexeme (c :: q) = if isdigit c then numericLexeme (c :: q)
      else if isalnum c ∨ c = ch '/' then wordLexeme (c :: q) else wildcardLexeme (c :: q) q := by
  obtain ⟨-, h0, h1, h2, h3, h4⟩ := begins_value c h
  simp only [lexeme, if_neg h0, if_neg h1, if_neg h2, if_neg h3, if_neg h4]
  split_ifs with hdigit hword hstar
  · rfl
  · rfl
  · rfl
  · rcases h with h | h | h | h
    · exact absurd h hdigit
    · exact absurd (.inl h) hword
    · exact absurd (.inr h) hword
    · exact absurd h hstar

/-! ### The lexer functions -/

variable {l : Lexer LexFn} {u v r q : List Octet} {c : Octet}

theorem zero_not_mem_numeric : (0 : Octet) ∉ C_NUMERIC := by decide

theorem zero_not_mem_word : (0 : Octet) ∉ WORD := by decide

theorem digits_append_after (r : List Octet) : digits r ++ afterDigits r = r := List.takeWhile_append_dropWhile

/-- `accept_all` of digits. -/
theorem acceptAll_digits (h : l.At u r) :
    l.acceptAll C_NUMERIC = ((digits r).length, l.goto (l.pos + cut (digits r).length (afterDigits r))) := by
  rw [h.acceptAll zero_not_mem_numeric, cut, add_sub_assoc]
  rfl

/-- Behind a part of the text. -/
theorem at_goto (h : l.At u (v ++ q)) : (l.goto (l.pos + v.length)).At (u ++ v) q := h.move

/-- Digits, the last of which is `x`. -/
theorem exists_digits (h : digits r ≠ []) :
    ∃ w x, r = w ++ x :: afterDigits r ∧ x ∈ C_NUMERIC ∧ (digits r).length = w.length + 1 := by
  rcases List.eq_nil_or_concat (digits r) with hnil | ⟨w, x, hdigits⟩
  · exact absurd hnil h
  · rw [List.concat_eq_append] at hdigits
    have hmem : x ∈ digits r := hdigits ▸ List.mem_append_right _ (List.mem_singleton_self x)
    refine ⟨w, x, ?_, by simpa using List.mem_takeWhile_imp hmem, by rw [hdigits, List.length_append]; rfl⟩
    rw [← List.singleton_append, ← List.append_assoc, ← hdigits, digits_append_after]

/-- `dotted` changes nothing but the position. -/
theorem dotted_goto (k : ℕ) (l : Lexer LexFn) : ∃ i, (dotted k l).2 = l.goto i := by
  induction k generalizing l with
  | zero => exact l.acceptAll_goto C_NUMERIC
  | succ k ih =>
    obtain ⟨i, hi⟩ := l.acceptAll_goto C_NUMERIC
    obtain ⟨j, hj⟩ := (l.goto i).acceptOne_goto [ch '.']
    rw [dotted]
    simp only [hi, hj]
    split_ifs
    · exact ⟨i, rfl⟩
    · obtain ⟨n, hn⟩ := ih ((l.goto i).goto j)
      exact ⟨n, hn⟩
    · exact ⟨j, rfl⟩

/-- `dotted` finds the groups of digits. -/
theorem dotted_eq (k : ℕ) (h : l.At u r) :
    (dotted k l).1 = (groups k r).isSome ∧ ∀ q, groups k r = some q →
      ∃ w x, r = w ++ x :: q ∧ x ∈ C_NUMERIC ∧ (dotted k l).2 = l.goto (l.pos + cut (w.length + 1) q) := by
  induction k generalizing l u r with
  | zero =>
    rw [dotted, acceptAll_digits h, groups]
    by_cases hd : digits r = []
    · rw [if_pos hd, hd]
      exact ⟨rfl, fun q hq => by cases hq⟩
    · obtain ⟨w, x, hr, hx, hlen⟩ := exists_digits hd
      rw [if_neg hd]
      refine ⟨by simpa using hd, fun q hq => ?_⟩
      obtain rfl := Option.some.inj hq
      exact ⟨w, x, hr, hx, by rw [hlen]⟩
  | succ k ih =>
    rw [dotted, acceptAll_digits h, groups]
    by_cases hd : digits r = []
    · rw [if_pos hd, hd]
      exact ⟨rfl, fun q hq => by cases hq⟩
    obtain ⟨w, x, hr, hx, hlen⟩ := exists_digits hd
    have hne : ¬(digits r).length = 0 := by omega
    rw [if_neg hd]
    simp only [if_neg hne]
    cases hafter : afterDigits r with
    | nil =>
      -- the lexer is back at the last digit
      rw [hafter] at hr
      have hat : (l.goto (l.pos + w.length)).At (u ++ w) [x] := at_goto (hr ▸ h)
      have hcut : l.pos + cut (digits r).length [] = l.pos + w.length := by rw [cut_nil, hlen]; omega
      have hdot : x ∉ [ch '.'] := fun hmem => by
        rw [List.mem_singleton.mp hmem] at hx
        exact absurd hx (by decide)
      rw [hcut, hat.acceptOne_not_mem hdot]
      exact ⟨rfl, fun q hq => by cases hq⟩
    | cons c q =>
      have hr' : r = digits r ++ c :: q := by rw [← hafter, digits_append_after]
      have hat : (l.goto (l.pos + (digits r).length)).At (u ++ digits r) (c :: q) := at_goto (hr' ▸ h)
      rw [cut_of_ne (List.cons_ne_nil c q)]
      by_cases hc : c = ch '.'
      · subst hc
        simp only [hat.acceptOne_mem (by decide) (List.mem_singleton_self _), if_true]
        obtain ⟨hsome, hrest⟩ := ih hat.step
        refine ⟨hsome, fun q' hq' => ?_⟩
        obtain ⟨w', x', rfl, hx', heq⟩ := hrest q' hq'
        refine ⟨digits r ++ ch '.' :: w', x', ?_, hx', heq.trans ?_⟩
        · rw [List.append_assoc]
          exact hr'
        · have hlen' : (digits r ++ ch '.' :: w').length + 1 = (digits r).length + 1 + (w'.length + 1) := by
            rw [List.length_append, List.length_cons]
            omega
          rw [Lexer.goto_goto, Lexer.goto_goto, Lexer.goto_pos, Lexer.goto_pos, hlen', cut_add ((digits r).length + 1)]
          exact congrArg l.goto (by omega)
      · have hdot : c ∉ [ch '.'] := by simpa using hc
        simp only [hat.acceptOne_not_mem hdot, if_neg hc, Bool.false_eq_true, if_false]
        exact ⟨rfl, fun q hq => by cases hq⟩

theorem digits_cons_of_mem (hc : c ∈ C_NUMERIC) : digits (c :: r) = c :: digits r :=
  List.takeWhile_cons_of_pos (by simpa using hc)

theorem afterDigits_cons_of_mem (hc : c ∈ C_NUMERIC) : afterDigits (c :: r) = afterDigits r :=
  List.dropWhile_cons_of_pos (by simpa using hc)

theorem digits_cons_of_not_mem (hc : c ∉ C_NUMERIC) : digits (c :: r) = [] :=
  List.takeWhile_cons_of_neg (by simpa using hc)

theorem afterDigits_cons_of_not_mem (hc : c ∉ C_NUMERIC) : afterDigits (c :: r) = c :: r :=
  List.dropWhile_cons_of_neg (by simpa using hc)

theorem pastNul_add (j k : ℕ) (q : List Octet) : (pastNul (j + k) q).1 = j + (pastNul k q).1 := by
  cases q with
  | nil => rfl
  | cons c q =>
    simp only [pastNul]
    split_ifs
    · exact add_assoc j k 1
    · rfl

/-- A loop over digits ends behind them, and behind a NUL that follows them. -/
theorem digitLoop_eq {α : Type} (g : α → Octet → α) (h : l.At u r) (a : α) :
    digitLoop g l a = ((digits r).foldl g a, l.goto (l.pos + (pastNul (digits r).length (afterDigits r)).1)) := by
  induction r generalizing l u a with
  | nil =>
    rw [digitLoop, h.next_nil, if_pos rfl]
    exact Prod.ext rfl (by simp [digits, afterDigits, pastNul])
  | cons c r ih =>
    rw [digitLoop, h.next_cons]
    by_cases hc : c ∈ C_NUMERIC
    · have hone : (pastNul ((digits r).length + 1) (afterDigits r)).1 =
          1 + (pastNul (digits r).length (afterDigits r)).1 := by
        rw [Nat.add_comm, pastNul_add]
      have hne : c ≠ 0 := fun heq => zero_not_mem_numeric (heq ▸ hc)
      have hchr : strchr C_NUMERIC c = true := by rw [strchr, decide_eq_true hc, Bool.true_or]
      rw [if_neg hne, if_pos hchr, ih h.step, digits_cons_of_mem hc, afterDigits_cons_of_mem hc, List.length_cons, hone,
        Lexer.goto_goto, Lexer.goto_pos]
      exact Prod.ext rfl (congrArg l.goto (by omega))
    · rw [digits_cons_of_not_mem hc, afterDigits_cons_of_not_mem hc]
      by_cases h0 : c = 0
      · subst h0
        rw [if_pos rfl]
        rfl
      · have hchr : ¬strchr C_NUMERIC c = true := by rw [strchr, decide_eq_false hc, decide_eq_false h0]; decide
        rw [if_neg h0, if_neg hchr, Lexer.backup_eq, Lexer.goto_goto, Lexer.goto_pos, pastNul, if_neg h0,
          add_sub_cancel_right]
        exact Prod.ext rfl (by simp)

/-- A token with a value. -/
theorem delivers_valued (h : l.Within u v q) (hf : l.f = some .any) (t : Token) (len : ℤ) :
    Delivers Final LexFn.any l u (valued t (v ++ q) len)
      ({ t with value := (l.goto (u.length + len)).value }, (l.goto (u.length + len)).ignore) := by
  refine ⟨?_, fun _ => Lexer.goto_ignore hf _⟩
  rw [h.value]
  rfl

/-- `lex_bareword`. -/
theorem lexBareword_eq (h : l.Within u [c] q) : Delivers Final LexFn.any l u (wordLexeme (c :: q)) (lexBareword l) := by
  have hword : ((l.setF (some .any)).acceptAll WORD).2 =
      (l.setF (some .any)).goto
        (u.length + cut (1 + (q.takeWhile (· ∈ WORD)).length) (q.dropWhile (· ∈ WORD))) := by
    rw [(h.at'.setF _).acceptAll zero_not_mem_word]
    refine congrArg (Lexer.goto _) ?_
    rw [cut, (h.setF _).pos]
    simp only [List.length_singleton]
    omega
  rw [lexBareword, hword, (h.setF _).value, wordLexeme, List.tail_cons, List.singleton_append]
  generalize cut (1 + (q.takeWhile (· ∈ WORD)).length) (q.dropWhile (· ∈ WORD)) = len
  cases findKeyword ((c :: q).take len.toNat) with
  | some k => exact ⟨rfl, fun _ => Lexer.goto_ignore rfl _⟩
  | none => exact ⟨rfl, fun _ => Lexer.goto_ignore rfl _⟩

/-- A port. -/
theorem port_eq (h : l.Within u v q) (hf : l.f = some .any) {len : ℕ} (hlen : v.length = len + 1) :
    Delivers Final LexFn.any l u (portLexeme (v ++ q) len q)
      (if (l.acceptAll C_NUMERIC).1 = 0 then ({ type := .error }, (l.acceptAll C_NUMERIC).2)
        else ({ type := .address, value := (l.acceptAll C_NUMERIC).2.value }, (l.acceptAll C_NUMERIC).2.ignore)) := by
  rw [acceptAll_digits h.at', portLexeme]
  by_cases hd : digits q = []
  · rw [if_pos hd, if_pos (by rw [hd]; rfl)]
    exact ⟨rfl, fun hfinal => absurd (.inr rfl) hfinal⟩
  · have hpos : l.pos + cut (digits q).length (afterDigits q) =
        u.length + cut (len + 1 + (digits q).length) (afterDigits q) := by
      rw [h.pos, hlen, cut_add (len + 1)]
      omega
    rw [if_neg hd, if_neg (by simpa using hd), hpos]
    exact delivers_valued h hf _ _

/-- `lex_wildcard`. -/
theorem lexWildcard_eq (h : l.Within u [c] q) :
    Delivers Final LexFn.any l u (wildcardLexeme (c :: q) q) (lexWildcard l) := by
  have herror : ∀ m, Delivers Final LexFn.any l u ({ type := .error }, 0) ({ type := .error }, m) :=
    fun m => ⟨rfl, fun hfinal => absurd (.inr rfl) hfinal⟩
  have hat := h.at'.setF (some LexFn.any)
  cases q with
  | nil =>
    simp only [lexWildcard, hat.acceptOne_nil, Bool.false_eq_true, if_false]
    exact herror _
  | cons d p =>
    by_cases hd : d = ch ':'
    · subst hd
      have hpos : (l.setF (some LexFn.any)).pos + 1 = u.length + ([c] ++ [ch ':']).length := by
        rw [(h.setF _).pos]
        rfl
      have hmove := (h.setF (some LexFn.any)).move (w := [ch ':'])
      rw [← hpos] at hmove
      simp only [lexWildcard, hat.acceptOne_mem (by decide) (List.mem_singleton_self _), if_true]
      exact port_eq hmove rfl rfl
    · have hcolon : d ∉ [ch ':'] := by simpa using hd
      simp only [lexWildcard, wildcardLexeme, hat.acceptOne_not_mem hcolon, if_neg hd, Bool.false_eq_true, if_false]
      exact herror _

/-! ### Numbers -/

/-- What is read of a number before its unit. -/
theorem exists_pastNul (k : ℕ) (q : List Octet) : ∃ w, q = w ++ (pastNul k q).2 ∧ k + w.length = (pastNul k q).1 := by
  cases q with
  | nil => exact ⟨[], rfl, rfl⟩
  | cons c q =>
    simp only [pastNul]
    split_ifs
    · exact ⟨[c], rfl, rfl⟩
    · exact ⟨[], rfl, rfl⟩

/-- The digits of a number are read, and a NUL behind them. -/
theorem exists_digitLoop {α : Type} (g : α → Octet → α) (h : l.Within u v r) (a : α) :
    ∃ w, r = w ++ (pastNul (digits r).length (afterDigits r)).2 ∧
      w.length = (pastNul (digits r).length (afterDigits r)).1 ∧
      digitLoop g l a = ((digits r).foldl g a, l.goto (u.length + (v ++ w).length)) := by
  obtain ⟨w, hw, hlen⟩ := exists_pastNul (digits r).length (afterDigits r)
  refine ⟨digits r ++ w, ?_, by rw [List.length_append]; exact hlen, ?_⟩
  · rw [List.append_assoc, ← hw, digits_append_after]
  · rw [digitLoop_eq g h.at', h.pos, ← hlen, List.length_append, List.length_append]
    exact Prod.ext rfl (congrArg l.goto (by omega))

/-- `b` makes a size. -/
theorem sizeUnit_b (hc : c = ch 'b' ∨ c = ch 'B') : sizeUnit l c = (true, c, l) := by
  rcases hc with rfl | rfl <;> rfl

/-- `k`, `m` and `g` make one if `b` follows. -/
theorem sizeUnit_factor {c' : Octet} {m : Lexer LexFn} (hc : strchr (octets "kKmMgGbB") c = true)
    (hb : ¬(c = ch 'b' ∨ c = ch 'B')) (hnext : l.next = (c', m)) :
    sizeUnit l c = if c' = ch 'b' ∨ c' = ch 'B' then (true, c', m) else (false, c', m.restart) := by
  rw [sizeUnit, if_pos hc]
  simp only [if_pos (not_or.mp hb), hnext]

/-- Other characters make none. -/
theorem sizeUnit_other (hc : ¬strchr (octets "kKmMgGbB") c = true) : sizeUnit l c = (false, c, l) := by
  rw [sizeUnit, if_neg hc]

/-- `lex_numeric`, behind the digits of an integer. -/
theorem lexUnit_eq (h : l.Within u v q) (hf : l.f = some .any) (ival : UInt32) :
    Delivers Final LexFn.any l u (unitLexeme (v ++ q) ival v.length q) (lexUnit ival l) := by
  have hval : ∀ (t : Token) (len : ℤ), Delivers Final LexFn.any l u (valued t (v ++ q) len)
      ({ t with value := (l.goto (u.length + len)).value }, (l.goto (u.length + len)).ignore) :=
    fun t len => delivers_valued h hf t len
  have hstart : l.start = u.length + 0 := by rw [h.start, add_zero]
  cases q with
  | nil =>
    have hunit : sizeUnit l 0 = (false, 0, l.restart) := sizeUnit_factor (by decide) (by decide) h.at'.next_nil
    have hdot : ¬(0 : Octet) = ch '.' := by decide
    have hchr : strchr (octets "sSmMhH") 0 = true := by decide
    simp only [lexUnit, h.at'.next_nil, if_neg hdot, hunit, Bool.false_eq_true, if_false, if_pos hchr]
    rw [Lexer.restart_eq, hstart]
    exact hval { type := .time, i := ival * timeFactor 0 } 0
  | cons c q =>
    have hone : l.pos + 1 = u.length + (v.length + 1 : ℕ) := by rw [h.pos]; omega
    have hmove : (l.goto (u.length + (v ++ [c]).length)).Within u (v ++ [c]) q := h.move (w := [c])
    rw [List.length_append, List.length_singleton] at hmove
    have hnext : (l.goto (u.length + (v.length + 1 : ℕ))).next =
        (q.headD 0, l.goto (u.length + (v.length + 1 + min 1 q.length : ℕ))) := by
      cases q with
      | nil => exact hmove.at'.next_nil
      | cons d q =>
        rw [hmove.at'.next_cons, Lexer.goto_goto, Lexer.goto_pos]
        exact Prod.ext rfl (congrArg l.goto (by rw [List.length_cons]; omega))
    have hback : (l.goto (u.length + (v.length + 1 : ℕ))).backup = l.goto (u.length + v.length) := by
      rw [Lexer.backup_eq, Lexer.goto_goto, Lexer.goto_pos]
      exact congrArg l.goto (by omega)
    simp only [lexUnit, h.at'.next_cons, unitLexeme, hone]
    by_cases hdot : c = ch '.'
    · obtain ⟨w, hq, hw, hloop⟩ := exists_digitLoop
        decimalStep hmove (ival.toFloat, 10)
      have hlen : (v ++ [c] ++ w).length = (pastNul (v.length + 1 + (digits q).length) (afterDigits q)).1 := by
        rw [pastNul_add, ← hw, List.length_append, List.length_append, List.length_singleton]
      rw [Lexer.goto_goto, hlen] at hloop
      simp only [if_pos hdot, decimalLoop, hloop]
      exact hval { type := .decimal, f := fraction ival (digits q) } _
    simp only [if_neg hdot]
    by_cases hb : c = ch 'b' ∨ c = ch 'B'
    · simp only [sizeUnit_b hb, if_pos hb, if_true]
      exact hval { type := .size, i := ival * sizeFactor c } _
    simp only [if_neg hb]
    by_cases hk : strchr (octets "kKmMgGbB") c = true
    · have hunit := sizeUnit_factor hk hb hnext
      simp only [if_pos hk]
      by_cases hb' : q.headD 0 = ch 'b' ∨ q.headD 0 = ch 'B'
      · have hlen : v.length + 1 + min 1 q.length = v.length + 2 := by
          cases q with
          | nil => exact absurd hb' (by decide)
          | cons d q => rw [List.length_cons]; omega
        rw [if_pos hb', hlen] at hunit
        simp only [hunit, if_pos hb', if_true]
        exact hval { type := .size, i := ival * sizeFactor c } _
      · rw [if_neg hb', Lexer.restart_eq, Lexer.goto_goto, Lexer.goto_start, hstart] at hunit
        simp only [hunit, if_neg hb', Bool.false_eq_true, if_false]
        by_cases hs : strchr (octets "sSmMhH") (q.headD 0) = true
        · simp only [if_pos hs]
          exact hval { type := .time, i := ival * timeFactor (q.headD 0) } 0
        · simp only [if_neg hs]
          rw [Lexer.backup_eq, Lexer.goto_goto, Lexer.goto_pos, add_sub_assoc, zero_sub]
          exact hval { type := .integer, i := ival } (-1)
    simp only [if_neg hk, sizeUnit_other hk, Bool.false_eq_true, if_false]
    by_cases hs : strchr (octets "sSmMhH") c = true
    · simp only [if_pos hs]
      exact hval { type := .time, i := ival * timeFactor c } _
    · simp only [if_neg hs, hback]
      exact hval { type := .integer, i := ival } _

/-- `lex_numeric`, for what is not an address. -/
theorem lexNumber_eq (h : l.Within u [] r) (hf : l.f = some .any) :
    Delivers Final LexFn.any l u (numberLexeme r) (lexNumber l) := by
  obtain ⟨w, hr, hw, hloop⟩ := exists_digitLoop (fun ival c => ival * 10 + digit c) h 0
  rw [List.nil_append] at hloop
  rw [lexNumber, integerLoop, hloop, numberLexeme]
  rcases hq : pastNul (digits r).length (afterDigits r) with ⟨k, q⟩
  simp only [hq] at hr hw
  subst hw
  have hwithin : (l.goto (u.length + w.length)).Within u w q := (hr ▸ h).move
  have hunit := lexUnit_eq hwithin hf (denoted 0 (digits r))
  rw [← hr] at hunit
  exact hunit

/-- `lex_numeric`. -/
theorem lexNumeric_eq (h : l.Within u [c] q) :
    Delivers Final LexFn.any l u (numericLexeme (c :: q)) (lexNumeric l) := by
  have hany := h.setF (some LexFn.any)
  obtain ⟨hok, hsome⟩ := dotted_eq 3 hany.at'
  cases hgroups : groups 3 q with
  | none =>
    obtain ⟨i, hi⟩ := dotted_goto 3 (l.setF (some LexFn.any))
    rw [hgroups] at hok
    have hrestart : ((l.setF (some LexFn.any)).goto i).restart.Within u [] (c :: q) := by
      refine ⟨⟨?_, ?_⟩, h.start⟩
      · rw [List.append_nil]
        exact h.at'.src.trans (List.append_assoc u [c] q)
      · rw [List.append_nil]
        exact h.start
    simp only [lexNumeric, hok, hi, Option.isSome_none, Bool.false_eq_true, if_false, numericLexeme, List.tail_cons,
      hgroups]
    exact lexNumber_eq hrestart rfl
  | some p =>
    obtain ⟨w, x, rfl, hx, hgoto⟩ := hsome p hgroups
    rw [hgroups] at hok
    simp only [lexNumeric, hok, hgoto, Option.isSome_some, if_true, numericLexeme, List.tail_cons, hgroups]
    have hcolon : x ∉ [ch ':'] := fun hmem => by
      rw [List.mem_singleton.mp hmem] at hx
      exact absurd hx (by decide)
    have hpos : (l.setF (some LexFn.any)).pos = u.length + 1 := hany.pos
    have hval : ∀ {r : List Octet}, c :: (w ++ x :: p) = r → ∀ len : ℤ,
        Delivers Final LexFn.any l u (valued { type := .address } r len)
        ({ type := .address, value := ((l.setF (some LexFn.any)).goto (u.length + len)).value },
          ((l.setF (some LexFn.any)).goto (u.length + len)).ignore) := by
      rintro r rfl len
      exact delivers_valued hany rfl { type := .address } len
    cases p with
    | nil =>
      -- the lexer is back at the last digit
      have hlen : (l.setF (some LexFn.any)).pos + cut (w.length + 1) [] =
          u.length + cut (c :: (w ++ [x])).length [] := by
        rw [hpos, cut_nil, cut_nil, List.length_cons, List.length_append, List.length_singleton]
        omega
      have hback : (l.setF (some LexFn.any)).pos + w.length = u.length + cut (c :: (w ++ [x])).length [] := by
        rw [hpos, cut_nil, List.length_cons, List.length_append, List.length_singleton]
        omega
      have hat := at_goto (v := w) hany.at'
      rw [hback] at hat
      simp only [hlen, hat.acceptOne_not_mem hcolon, Bool.false_eq_true, if_false]
      exact hval rfl _
    | cons d p =>
      have hread : w ++ x :: d :: p = (w ++ [x]) ++ d :: p := by rw [List.append_assoc, List.singleton_append]
      have hv : ([c] ++ (w ++ [x])).length = w.length + 2 := by simp
      have hv' : ([c] ++ (w ++ [x]) ++ [ch ':']).length = w.length + 3 := by simp
      have hlen : (l.setF (some LexFn.any)).pos + cut (w.length + 1) (d :: p) =
          u.length + ([c] ++ (w ++ [x])).length := by
        rw [hpos, cut_of_ne (List.cons_ne_nil d p), hv]
        omega
      have hdiff : (c :: (w ++ x :: d :: p)).length - (d :: p).length = ([c] ++ (w ++ [x])).length := by
        rw [hv, hread, List.length_cons, List.length_append, List.length_append, List.length_singleton]
        omega
      have hmove : ((l.setF (some LexFn.any)).goto (u.length + ([c] ++ (w ++ [x])).length)).Within u
          ([c] ++ (w ++ [x])) (d :: p) := (hread ▸ hany).move
      simp only [addressLexeme, hdiff, hlen]
      by_cases hd : d = ch ':'
      · subst hd
        have hport := hmove.move (w := [ch ':']) (r := p)
        have hnext : u.length + (([c] ++ (w ++ [x])).length : ℤ) + 1 =
            u.length + ([c] ++ (w ++ [x]) ++ [ch ':']).length := by
          rw [hv', hv]
          omega
        rw [Lexer.goto_goto, ← hnext] at hport
        simp only [hmove.at'.acceptOne_mem (by decide) (List.mem_singleton_self _), if_true, Lexer.goto_goto,
          Lexer.goto_pos]
        have hwhole : c :: (w ++ x :: ch ':' :: p) = [c] ++ (w ++ [x]) ++ [ch ':'] ++ p := by simp
        rw [hwhole]
        exact port_eq hport rfl (by rw [hv', hv])
      · have hcolon : d ∉ [ch ':'] := by simpa using hd
        simp only [hmove.at'.acceptOne_not_mem hcolon, if_neg hd, Bool.false_eq_true, if_false]
        exact hval rfl _

/-! ### What `emit` delivers -/

/-- `lex_any` skips blanks, and calls for comments to be skipped. -/
theorem rules_skips : Skips rules isspace .comment where
  atBlank h hc := by
    change lexAny _ = lexAny _
    rw [lexAny, h.next_cons, if_pos hc]
  atHash h hc heq := by
    change lexAny _ = _
    subst heq
    rw [lexAny, h.next_cons, if_neg hc]
    rfl
  inComment l := rfl

/-- The token at the beginning of the text, where no blanks or comments come first. -/
theorem emits_lexeme (h : l.At u r) (hf : l.f = some .any) (hstart : l.start = u.length)
    (hhead : ∀ c ∈ r.head?, ¬isspace c ∧ c ≠ ch '#') : Emits rules Final l u (lexeme r) := by
  cases r with
  | nil =>
    have hcall : rules.call .any l = (some { type := .eos }, l.setF none) := by
      change lexAny _ = _
      rw [lexAny, h.next_nil]
      rfl
    exact ⟨_, emit_of_some hf hcall, rfl, fun hfinal => absurd (.inl rfl) hfinal⟩
  | cons c q =>
    obtain ⟨hspace, hhash⟩ := hhead c rfl
    have hany : rules.call .any l = lexOne c (l.goto (l.pos + 1)) := by
      change lexAny _ = _
      rw [lexAny, h.next_cons, if_neg hspace]
    have hone : lexOne c (l.goto (l.pos + 1)) = lexOne c (l.goto (l.pos + 1)) := rfl
    conv at hone => rhs; rw [lexOne]
    simp only [lexeme]
    by_cases h0 : c = 0
    · rw [if_pos h0] at hone ⊢
      exact emits_final hf (.inl rfl) (hany.trans hone)
    rw [if_neg h0] at hone ⊢
    by_cases h1 : c = 0x7b
    · rw [if_pos h1] at hone ⊢
      exact emits_single hf h.pos (hany.trans hone)
    rw [if_neg h1] at hone ⊢
    by_cases h2 : c = 0x7d
    · rw [if_pos h2] at hone ⊢
      exact emits_single hf h.pos (hany.trans hone)
    rw [if_neg h2] at hone ⊢
    by_cases h3 : c = ch ';'
    · rw [if_pos h3] at hone ⊢
      exact emits_single hf h.pos (hany.trans hone)
    rw [if_neg h3, if_neg hhash] at hone
    rw [if_neg h3]
    by_cases h4 : c = 0x27 ∨ c = 0x22
    · rw [if_pos h4] at hone ⊢
      exact emits_sub h hf hstart (fun _ => rfl) (fun h => delivers_quoted h (.inr rfl) _) (hany.trans hone)
    rw [if_neg h4] at hone ⊢
    by_cases h5 : isdigit c
    · rw [if_pos h5] at hone ⊢
      exact emits_sub h hf hstart (fun _ => rfl) lexNumeric_eq (hany.trans hone)
    rw [if_neg h5] at hone ⊢
    by_cases h6 : isalnum c ∨ c = ch '/'
    · rw [if_pos h6] at hone ⊢
      exact emits_sub h hf hstart (fun _ => rfl) lexBareword_eq (hany.trans hone)
    rw [if_neg h6] at hone ⊢
    by_cases h7 : c = ch '*'
    · rw [if_pos h7] at hone ⊢
      exact emits_sub h hf hstart (fun _ => rfl) lexWildcard_eq (hany.trans hone)
    rw [if_neg h7] at hone ⊢
    exact emits_final hf (.inr rfl) (hany.trans hone)

/-- `lex_any` at the end of the text. -/
theorem lexAny_atEnd {l : Lexer LexFn} (h : l.next.1 = 0) : lexAny l = (some { type := .eos }, l.next.2.setF none) := by
  rw [lexAny, h, if_neg (by decide)]
  rfl

/-- The tokens of a configuration. -/
def lexemes : Lexemes rules where
  blank := isspace
  comment := .comment
  skips := rules_skips
  Final := Final
  lexeme := lexeme
  emits := emits_lexeme
  atEnd _ h := ⟨_, lexAny_atEnd h⟩
  final_nil := .inl rfl

end PgRouter.Config
