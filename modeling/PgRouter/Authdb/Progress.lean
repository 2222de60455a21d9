import PgRouter.Authdb.Lexeme

/-!
# Parsing an authentication database ends

At the end of the text an empty word is delivered again and again, but no entry is made of it: the second
token of an entry is `md5`, or a quoted string. So `parse_top` has advanced when it succeeds.
-/

namespace PgRouter.Authdb

open Foundation Wire Text

variable {src r q : List Octet} {i : ℤ} {t : Token} {p : Parser}

/-! ### Positions -/

theorem wordLength_le (q : List Octet) : 0 ≤ wordLength q ∧ wordLength q ≤ 1 + q.length := by
  have htake := (List.takeWhile_sublist (l := q) inWord).length_le
  have hle := cut_le (1 + (q.takeWhile inWord).length) (q.dropWhile inWord)
  have hge := le_cut (1 + (q.takeWhile inWord).length) (q.dropWhile inWord)
  unfold wordLength
  omega

/-- A token is within the text. -/
theorem lexeme_le (r : List Octet) : 0 ≤ (lexeme r).2 ∧ (lexeme r).2 ≤ r.length := by
  cases r with
  | nil => exact ⟨le_rfl, le_rfl⟩
  | cons c q =>
    have hword := wordLength_le q
    rw [List.length_cons]
    simp only [lexeme, quoted]
    split_ifs
    · exact ⟨le_rfl, Int.natCast_nonneg _⟩
    · exact ⟨Int.one_nonneg, by dsimp only; omega⟩
    · split
      · exact ⟨Int.natCast_nonneg _, by dsimp only; omega⟩
      · exact ⟨le_rfl, Int.natCast_nonneg _⟩
    · exact ⟨hword.1, by dsimp only; omega⟩

/-- It is not empty, if it is no word without octets. -/
theorem lexeme_pos (hfinal : ¬Final (lexeme r).1) (hempty : (lexeme r).1.type = .word → asString (lexeme r).1 ≠ []) :
    1 ≤ (lexeme r).2 := by
  cases r with
  | nil => exact absurd (.inl rfl) hfinal
  | cons c q =>
    have hword := wordLength_le q
    simp only [lexeme, quoted] at hfinal hempty ⊢
    split_ifs at hfinal hempty ⊢
    · exact absurd (.inl rfl) hfinal
    · exact le_rfl
    · cases hq : afterQuote c false q with
      | some p =>
        dsimp only
        omega
      | none =>
        rw [hq] at hfinal
        exact absurd (.inr rfl) hfinal
    · by_contra hlt
      have hzero : (wordLength q).toNat = 0 := by
        dsimp only at hlt
        omega
      refine hempty rfl ?_
      rw [hzero]
      rfl

theorem peek_eq (h0 : 0 ≤ i) : lexemes.peek src i = ((lexeme (skip blank false (src.drop i.toNat))).1,
    src.length - (skip blank false (src.drop i.toNat)).length +
      (lexeme (skip blank false (src.drop i.toNat))).2) := by
  rw [Lexemes.peek, if_neg (not_lt.mpr h0)]
  rfl

theorem skip_length (h0 : 0 ≤ i) (hi : i ≤ src.length) :
    i + (skip blank false (src.drop i.toNat)).length ≤ src.length := by
  have hlen := (skip_suffix blank false (src.drop i.toNat)).length_le
  rw [List.length_drop] at hlen
  omega

/-- The lexer does not go back. -/
theorem peek_le (h0 : 0 ≤ i) (hi : i ≤ src.length) :
    i ≤ (lexemes.peek src i).2 ∧ (lexemes.peek src i).2 ≤ src.length := by
  have hlen := skip_length h0 hi
  have hle := lexeme_le (skip blank false (src.drop i.toNat))
  rw [peek_eq h0]
  dsimp only
  omega

/-- It has advanced, if the token is no word without octets. -/
theorem peek_lt (h0 : 0 ≤ i) (hi : i ≤ src.length) (hfinal : ¬Final (lexemes.peek src i).1)
    (hempty : (lexemes.peek src i).1.type = .word → asString (lexemes.peek src i).1 ≠ []) :
    i < (lexemes.peek src i).2 := by
  have hlen := skip_length h0 hi
  rw [peek_eq h0] at hfinal hempty ⊢
  have hpos := lexeme_pos hfinal hempty
  dsimp only
  omega

/-! ### The parser -/

/-- `parse_top`, after a user name and `md5`. -/
def afterType (p : Parser) (user : CString) (t3 : Token) : ℤ × Parser :=
  match t3.type with
  | .word | .qstring => (0, p.newEntry user (asString t3))
  | _ => (1, p.stop)

/-- `parse_top`, after a user name. -/
def afterUser (p : Parser) (user : CString) (t2 : Token) : Consumer Token (ℤ × Parser) :=
  match t2.type with
  | .word => if asString t2 = MD5 then .read fun t3 => .done (afterType p user t3) else .done (1, p.stop)
  | .qstring => .done (0, p)
  | .eos => .done (0, p.stop)
  | _ => .done (1, p.stop)

theorem parseTop_eq (p : Parser) : parseTop p = .read fun t1 =>
    match t1.type with
    | .word | .qstring => .read (afterUser p (asString t1))
    | .newline => .done (0, p)
    | .eos => .done (0, p.stop)
    | .error => .done (1, p.stop) := by
  refine congrArg Consumer.read (funext fun t1 => ?_)
  simp only [Consumer.done_bind]
  cases t1.type
  case newline => rfl
  case eos => rfl
  case error => rfl
  all_goals
    -- what begins with a user name
    refine congrArg Consumer.read (funext fun t2 => ?_)
    simp only [Consumer.done_bind, afterUser]
    cases t2.type
    case word =>
      dsimp only
      by_cases hmd5 : asString t2 = MD5
      · rw [if_pos hmd5, if_neg (not_not_intro hmd5)]
        refine congrArg Consumer.read (funext fun t3 => ?_)
        simp only [Consumer.done_bind, afterType]
        cases t3.type <;> rfl
      · rw [if_neg hmd5, if_pos hmd5]
        rfl
    all_goals rfl

/-! ### What it takes -/

/-- What the loop of `parse` ends with. -/
def Stop (x : ℤ × Parser) : Prop := x.1 ≠ 0 ∨ x.2.f = false

theorem afterType_stop (p : Parser) (user : CString) (h : Final t) : Stop (afterType p user t) := by
  rcases h with h | h <;> rw [afterType, h] <;> exact .inl one_ne_zero

theorem afterUser_ends (p : Parser) (user : CString) : (Consumer.read (afterUser p user)).Ends Final Stop := by
  intro t2
  unfold afterUser
  cases ht : t2.type with
  | word =>
    refine ⟨?_, fun h => by rcases h with h | h <;> rw [ht] at h <;> cases h⟩
    dsimp only
    split_ifs
    · exact fun t3 => ⟨trivial, fun h => ⟨_, rfl, afterType_stop p user h⟩⟩
    · trivial
  | qstring => exact ⟨trivial, fun h => by rcases h with h | h <;> rw [ht] at h <;> cases h⟩
  | eos => exact ⟨trivial, fun _ => ⟨_, rfl, .inr rfl⟩⟩
  | error => exact ⟨trivial, fun _ => ⟨_, rfl, .inr rfl⟩⟩
  | newline => exact ⟨trivial, fun _ => ⟨_, rfl, .inr rfl⟩⟩

/-- With a final token `parse_top` stops. -/
theorem parseTop_ends (p : Parser) : (parseTop p).Ends Final Stop := by
  rw [parseTop_eq]
  intro t1
  dsimp only
  cases ht : t1.type with
  | word => exact ⟨afterUser_ends p _, fun h => by rcases h with h | h <;> rw [ht] at h <;> cases h⟩
  | qstring => exact ⟨afterUser_ends p _, fun h => by rcases h with h | h <;> rw [ht] at h <;> cases h⟩
  | newline => exact ⟨trivial, fun h => by rcases h with h | h <;> rw [ht] at h <;> cases h⟩
  | error => exact ⟨trivial, fun _ => ⟨_, rfl, .inr rfl⟩⟩
  | eos => exact ⟨trivial, fun _ => ⟨_, rfl, .inr rfl⟩⟩

/-- So does the loop of `parse`. -/
theorem parse_ends (n : ℕ) (p : Parser) : (parse n p).Ends Final fun _ => True := by
  induction n generalizing p with
  | zero => trivial
  | succ n ih =>
    cases hf : p.f with
    | false =>
      rw [parse_false hf]
      trivial
    | true =>
      rw [parse_true hf]
      refine (parseTop_ends p).bind (fun x => ?_) fun x hstop => ?_
      · split_ifs
        · exact ih x.2
        · trivial
      · split_ifs with hx
        · cases n with
          | zero => exact ⟨none, rfl, trivial⟩
          | succ n => exact ⟨_, parse_false (hstop.resolve_left (not_not_intro hx)), trivial⟩
        · exact ⟨_, rfl, trivial⟩

/-- After a user name `parse_top` has advanced, if it succeeds. -/
theorem afterUser_advances (user : CString) (h0 : 0 ≤ i) (hi : i ≤ src.length)
    (hrc : ((Consumer.read (afterUser p user)).eval (lexemes.peek src) i).1.1 = 0)
    (hf : ((Consumer.read (afterUser p user)).eval (lexemes.peek src) i).1.2.f = true) :
    i < ((Consumer.read (afterUser p user)).eval (lexemes.peek src) i).2 ∧
      ((Consumer.read (afterUser p user)).eval (lexemes.peek src) i).2 ≤ src.length := by
  obtain ⟨hge, hle⟩ := peek_le h0 hi
  rw [Consumer.eval_read] at hrc hf ⊢
  have hlt := @peek_lt src i h0 hi
  generalize lexemes.peek src i = x at *
  unfold afterUser at hrc hf ⊢
  cases ht : x.1.type with
  | word =>
    have hfinal : ¬Final x.1 := by rintro (h | h) <;> rw [ht] at h <;> cases h
    simp only [ht] at hrc hf ⊢
    split_ifs at hrc hf ⊢ with hmd5
    · have hword := hlt hfinal fun _ => by rw [hmd5]; decide
      obtain ⟨hge', hle'⟩ := peek_le (h0.trans hge) hle
      exact ⟨hword.trans_le hge', hle'⟩
    · exact absurd hrc one_ne_zero
  | qstring =>
    have hfinal : ¬Final x.1 := by rintro (h | h) <;> rw [ht] at h <;> cases h
    simp only [ht] at hrc hf ⊢
    exact ⟨hlt hfinal (fun hword => by rw [ht] at hword; cases hword), hle⟩
  | eos => simp [ht, Parser.stop] at hf
  | error => simp [ht] at hrc
  | newline => simp [ht] at hrc

/-- When `parse_top` succeeds it has advanced. -/
theorem parseTop_advances (p : Parser) (h0 : 0 ≤ i) (hi : i ≤ src.length)
    (hrc : ((parseTop p).eval (lexemes.peek src) i).1.1 = 0)
    (hf : ((parseTop p).eval (lexemes.peek src) i).1.2.f = true) :
    i < ((parseTop p).eval (lexemes.peek src) i).2 ∧ ((parseTop p).eval (lexemes.peek src) i).2 ≤ src.length := by
  obtain ⟨hge, hle⟩ := peek_le h0 hi
  have hlt := @peek_lt src i h0 hi
  rw [parseTop_eq, Consumer.eval_read] at hrc hf ⊢
  generalize lexemes.peek src i = x at *
  cases ht : x.1.type with
  | word =>
    simp only [ht] at hrc hf ⊢
    obtain ⟨hlt', hle'⟩ := afterUser_advances _ (h0.trans hge) hle hrc hf
    exact ⟨hge.trans_lt hlt', hle'⟩
  | qstring =>
    simp only [ht] at hrc hf ⊢
    obtain ⟨hlt', hle'⟩ := afterUser_advances _ (h0.trans hge) hle hrc hf
    exact ⟨hge.trans_lt hlt', hle'⟩
  | newline =>
    have hfinal : ¬Final x.1 := by rintro (h | h) <;> rw [ht] at h <;> cases h
    exact ⟨hlt hfinal (fun hword => by rw [ht] at hword; cases hword), hle⟩
  | eos => simp [ht, Parser.stop] at hf
  | error => simp [ht] at hrc

/-- The loop of `parse` comes to an end, if it has as many rounds as octets are left, and two more. More rounds
make no difference. -/
theorem parse_eval (src : List Octet) (n : ℕ) (p : Parser) (i : ℤ) (hn : 1 ≤ n)
    (hleft : p.f = true → 0 ≤ i ∧ i ≤ src.length ∧ src.length + 2 ≤ n + i) :
    ∃ x, ∀ k, ((parse (n + k) p).eval (lexemes.peek src) i).1 = some x := by
  induction n generalizing p i with
  | zero => omega
  | succ n ih =>
    cases hf : p.f with
    | false =>
      refine ⟨(0, p), fun k => ?_⟩
      rw [Nat.succ_add, parse_false hf]
      rfl
    | true =>
      obtain ⟨h0, hi, hbound⟩ := hleft hf
      have hadvances := @parseTop_advances src i p h0 hi
      simp only [Nat.succ_add, parse_true hf, Consumer.eval_bind]
      generalize (parseTop p).eval (lexemes.peek src) i = x at *
      by_cases hrc : x.1.1 = 0
      · simp only [if_pos hrc]
        refine ih _ _ (by omega) fun hnext => ?_
        obtain ⟨hlt, hle⟩ := hadvances hrc hnext
        exact ⟨by omega, hle, by omega⟩
      · simp only [if_neg hrc]
        exact ⟨_, fun _ => rfl⟩

/-- `parse` returns. -/
theorem exists_run (text : List Octet) :
    ∃ x, ∀ k, ∃ l, (parse (text.length + 2 + k) parserInit).run (emit rules) (lexerInit text) = some (some x, l) := by
  obtain ⟨x, hx⟩ := parse_eval text (text.length + 2) parserInit 0 (by omega) fun _ =>
    ⟨le_rfl, Int.natCast_nonneg _, by omega⟩
  refine ⟨x, fun k => ?_⟩
  rw [← hx k]
  obtain ⟨l, hrun, -⟩ := lexemes.run_emit (parse_ends _ _) text 0
  exact ⟨l, hrun⟩

end PgRouter.Authdb
