import PgRouter.Config.Configure
import PgRouter.Config.Lexeme

/-!
# Parsing a configuration ends

Some tokens do not advance the lexer, and an integer may even be read with the lexer ending up in front of
it. But a parser function that succeeds has taken a keyword, a brace or a semicolon first, so it has
advanced unless the keyword is the empty one at the end of the text; that is delivered again and is not
what may follow. What follows a keyword immediately is not a number (`keyword_boundary`).
-/

namespace PgRouter.Config

open Foundation Wire Text

variable {r q : List Octet} {c : Octet}

/-! ### How far tokens reach -/

/-- A token is within the text, if the lexer does not go back by one octet before an integer. -/
def Fits (r : List Octet) (y : Lexeme) : Prop :=
  y.2 ≤ r.length ∧ (0 ≤ y.2 ∨ y.2 = -1 ∧ y.1.type = .integer ∧ 2 ≤ r.length ∧ ∃ c ∈ r.head?, isdigit c)

theorem fits_of_nat {t : Token} {n : ℕ} (h : n ≤ r.length) : Fits r (t, n) :=
  ⟨Int.ofNat_le.mpr h, .inl (Int.natCast_nonneg n)⟩

theorem fits_cut (t : Token) {n : ℕ} (q : List Octet) (hle : n ≤ r.length) (hpos : 1 ≤ n) : Fits r (t, cut n q) := by
  have hcut := cut_le n q
  have hge := le_cut n q
  exact ⟨by dsimp only; omega, .inl (by dsimp only; omega)⟩

theorem digits_length_add (r : List Octet) : (digits r).length + (afterDigits r).length = r.length := by
  rw [← List.length_append, digits_append_after]

theorem pastNul_length (k : ℕ) (q : List Octet) : (pastNul k q).1 + (pastNul k q).2.length = k + q.length := by
  obtain ⟨w, hw, hlen⟩ := exists_pastNul k q
  have hlength := congrArg List.length hw
  rw [List.length_append] at hlength
  omega

theorem groups_length {k : ℕ} (h : groups k r = some q) : q.length ≤ r.length := by
  induction k generalizing r with
  | zero =>
    rw [groups] at h
    split_ifs at h
    cases h
    have hlen := digits_length_add r
    omega
  | succ k ih =>
    rw [groups] at h
    split_ifs at h
    have hlen := digits_length_add r
    cases hafter : afterDigits r with
    | nil =>
      rw [hafter] at h
      cases h
    | cons c p =>
      rw [hafter] at h hlen
      simp only [Option.ite_none_right_eq_some] at h
      have hrest := ih h.2
      rw [List.length_cons] at hlen
      omega

theorem fits_word (c : Octet) (q : List Octet) : Fits (c :: q) (wordLexeme (c :: q)) := by
  have hlen : 1 + (q.takeWhile (· ∈ WORD)).length ≤ (c :: q).length := by
    rw [List.length_cons]
    have htake := (List.takeWhile_sublist (l := q) (· ∈ WORD)).length_le
    omega
  have hfits : ∀ t, Fits (c :: q) (t, cut (1 + (q.takeWhile (· ∈ WORD)).length) (q.dropWhile (· ∈ WORD))) := fun t =>
    fits_cut t _ hlen (by omega)
  simp only [wordLexeme, List.tail_cons]
  split
  · exact hfits _
  · exact hfits _

theorem fits_port {len : ℕ} (h : len + 1 + q.length ≤ r.length) : Fits r (portLexeme r len q) := by
  have hlen := digits_length_add q
  unfold portLexeme
  split_ifs
  · exact fits_of_nat (n := 0) (Nat.zero_le _)
  · exact fits_cut _ _ (by omega) (by omega)

theorem fits_wildcard (c : Octet) (q : List Octet) : Fits (c :: q) (wildcardLexeme (c :: q) q) := by
  cases q with
  | nil => exact fits_of_nat (n := 0) (Nat.zero_le _)
  | cons d p =>
    simp only [wildcardLexeme]
    split_ifs
    · exact fits_port (by simp only [List.length_cons]; omega)
    · exact fits_of_nat (n := 0) (Nat.zero_le _)

theorem fits_address (c : Octet) (hq : q.length ≤ r.length) : Fits (c :: r) (addressLexeme (c :: r) q) := by
  cases q with
  | nil => exact fits_cut _ _ le_rfl (by simp)
  | cons d p =>
    simp only [addressLexeme]
    split_ifs
    · refine fits_port ?_
      simp only [List.length_cons] at hq ⊢
      omega
    · exact fits_of_nat (Nat.sub_le _ _)

theorem fits_unit {k : ℕ} (ival : UInt32) (hk : k + q.length ≤ r.length) (hpos : 1 ≤ k)
    (hc : ∃ c ∈ r.head?, isdigit c) :
    Fits r (unitLexeme r ival k q) := by
  cases q with
  | nil => exact fits_of_nat (n := 0) (Nat.zero_le _)
  | cons d p =>
    rw [List.length_cons] at hk
    simp only [unitLexeme]
    split_ifs with _ _ _ hsize htime
    · refine fits_of_nat ?_
      have hlen := pastNul_length (k + 1 + (digits p).length) (afterDigits p)
      have hdigits := digits_length_add p
      omega
    · exact fits_of_nat (by omega)
    · refine fits_of_nat ?_
      cases p with
      | nil => exact absurd hsize (by decide)
      | cons e p =>
        rw [List.length_cons] at hk
        omega
    · exact fits_of_nat (n := 0) (Nat.zero_le _)
    · exact ⟨by dsimp only [valued]; omega, .inr ⟨rfl, rfl, by omega, hc⟩⟩
    · exact fits_of_nat (by omega)
    · exact fits_of_nat (by omega)

set_option maxRecDepth 4000 in
theorem mem_word_of_isdigit : ∀ c : Octet, isdigit c → c ∈ WORD := forall_octet (by decide)

theorem fits_number (hc : isdigit c) (q : List Octet) : Fits (c :: q) (numberLexeme (c :: q)) := by
  obtain ⟨w, -, hlen⟩ := exists_pastNul (digits (c :: q)).length (afterDigits (c :: q))
  have hwhole := pastNul_length (digits (c :: q)).length (afterDigits (c :: q))
  rw [digits_length_add] at hwhole
  have hpos : 1 ≤ (pastNul (digits (c :: q)).length (afterDigits (c :: q))).1 := by
    rw [digits_cons_of_mem ((isdigit_iff_mem c).mp hc), List.length_cons] at hlen ⊢
    omega
  exact fits_unit _ hwhole.le hpos ⟨c, rfl, hc⟩

theorem fits_numeric (hc : isdigit c) (q : List Octet) : Fits (c :: q) (numericLexeme (c :: q)) := by
  simp only [numericLexeme, List.tail_cons]
  split
  · rename_i p hgroups
    exact fits_address c (groups_length hgroups)
  · exact fits_number hc q

theorem fits_quoted (found : List Octet → Token) (error : Token) (c : Octet) (q : List Octet) :
    Fits (c :: q) (quoted found error c q) := by
  unfold quoted
  split
  · refine fits_of_nat ?_
    rw [List.length_cons]
    omega
  · exact fits_of_nat (n := 0) (Nat.zero_le _)

theorem fits_lexeme (r : List Octet) : Fits r (lexeme r) := by
  cases r with
  | nil => exact fits_of_nat (n := 0) le_rfl
  | cons c q =>
    have hzero : ∀ t, Fits (c :: q) (t, 0) := fun t => fits_of_nat (n := 0) (Nat.zero_le _)
    have hone : ∀ t, Fits (c :: q) (t, 1) := fun t => fits_of_nat (n := 1) (by simp)
    simp only [lexeme]
    split_ifs with _ _ _ _ _ hdigit
    · exact hzero _
    · exact hone _
    · exact hone _
    · exact hone _
    · exact fits_quoted _ _ c q
    · exact fits_numeric hdigit q
    · exact fits_word c q
    · exact fits_wildcard c q
    · exact hzero _

/-! ### Keywords -/

/-- The types of the tokens that are no words and no single octets. -/
def VALUES : List TokenType := [.error, .address, .decimal, .integer, .size, .time, .qstring]

/-- The types of those that are not quoted. -/
def UNQUOTED : List TokenType := [.error, .address, .decimal, .integer, .size, .time]

theorem mem_values {x : TokenType} (h : x ∈ UNQUOTED) : x ∈ VALUES :=
  (List.mem_append_left [TokenType.qstring] h : x ∈ UNQUOTED ++ [.qstring])

theorem portLexeme_type (r : List Octet) (len : ℕ) (q : List Octet) : (portLexeme r len q).1.type ∈ UNQUOTED := by
  unfold portLexeme
  split_ifs <;> simp [UNQUOTED, valued]

theorem wildcardLexeme_type (r q : List Octet) : (wildcardLexeme r q).1.type ∈ UNQUOTED := by
  unfold wildcardLexeme
  split
  · simp [UNQUOTED]
  · split_ifs
    · exact portLexeme_type _ _ _
    · simp [UNQUOTED]

theorem numericLexeme_type (r : List Octet) : (numericLexeme r).1.type ∈ UNQUOTED := by
  unfold numericLexeme
  split
  · unfold addressLexeme
    split
    · simp [UNQUOTED, valued]
    · split_ifs
      · exact portLexeme_type _ _ _
      · simp [UNQUOTED, valued]
  · simp only [numberLexeme, unitLexeme]
    split
    · simp [UNQUOTED, valued]
    · split_ifs <;> simp [UNQUOTED, valued]

theorem quoted_type (c : Octet) (q : List Octet) :
    (quoted (fun value => ({ type := .qstring, value := value } : Token)) { type := .error } c q).1.type ∈ VALUES := by
  unfold quoted
  split <;> simp [VALUES]

theorem wordLexeme_type (r : List Octet) :
    (∃ k, (wordLexeme r).1.type = .keyword k) ∨ (wordLexeme r).1.type = .bareword := by
  simp only [wordLexeme]
  split
  · exact .inl ⟨_, rfl⟩
  · exact .inr rfl

/-- Only words are keywords. -/
theorem lexeme_keyword {k : Keyword} (h : (lexeme r).1.type = .keyword k) :
    ∃ c q, r = c :: q ∧ lexeme r = wordLexeme r := by
  have hne : ∀ {y : Lexeme}, y.1.type ∈ VALUES → y.1.type ≠ .keyword k := fun hmem heq => by
    rw [heq] at hmem
    simp [VALUES] at hmem
  cases r with
  | nil => cases h
  | cons c q =>
    refine ⟨c, q, rfl, ?_⟩
    simp only [lexeme] at h ⊢
    split_ifs at h ⊢
    · exact absurd h (hne (quoted_type c q))
    · exact absurd h (hne (mem_values (numericLexeme_type _)))
    · rfl
    · exact absurd h (hne (mem_values (wildcardLexeme_type _ q)))

/-- A closing brace and a semicolon are single octets. -/
theorem lexeme_end (h : (lexeme r).1.type = .close ∨ (lexeme r).1.type = .termx) : (lexeme r).2 = 1 := by
  have hne : ∀ {y : Lexeme}, y.1.type ∈ VALUES → ¬(y.1.type = .close ∨ y.1.type = .termx) := by
    rintro y hmem (heq | heq) <;> rw [heq] at hmem <;> simp [VALUES] at hmem
  cases r with
  | nil => rcases h with h | h <;> cases h
  | cons c q =>
    simp only [lexeme] at h ⊢
    split_ifs at h ⊢
    · rcases h with h | h <;> cases h
    · rfl
    · rfl
    · rfl
    · exact absurd h (hne (quoted_type c q))
    · exact absurd h (hne (mem_values (numericLexeme_type _)))
    · rcases wordLexeme_type (c :: q) with ⟨k, hk⟩ | hk <;> rw [hk] at h <;> rcases h with h | h <;> cases h
    · exact absurd h (hne (mem_values (wildcardLexeme_type _ q)))
    · rcases h with h | h <;> cases h

/-- What follows a keyword immediately is a single octet, or not part of a word. -/
theorem keyword_boundary {k : Keyword} (h : (lexeme r).1.type = .keyword k) :
    0 ≤ (lexeme r).2 ∧
      ((r.drop (lexeme r).2.toNat).length ≤ 1 ∨ ∃ c ∈ (r.drop (lexeme r).2.toNat).head?, c ∉ WORD) := by
  obtain ⟨c, q, rfl, hword⟩ := lexeme_keyword h
  have hlen : (lexeme (c :: q)).2 = cut (1 + (q.takeWhile (· ∈ WORD)).length) (q.dropWhile (· ∈ WORD)) := by
    rw [hword]
    simp only [wordLexeme, List.tail_cons]
    split <;> rfl
  have hsplit := List.takeWhile_append_dropWhile (p := fun c => decide (c ∈ WORD)) (l := q)
  rw [hlen]
  cases hrest : q.dropWhile (· ∈ WORD) with
  | nil =>
    have hq : (q.takeWhile (· ∈ WORD)).length = q.length := by
      rw [← congrArg List.length hsplit, hrest, List.append_nil]
    rw [cut_nil, hq]
    refine ⟨by omega, .inl ?_⟩
    rw [List.length_drop, List.length_cons]
    omega
  | cons d p =>
    rw [cut_of_ne (List.cons_ne_nil d p)]
    refine ⟨Int.natCast_nonneg _, .inr ⟨d, ?_, ?_⟩⟩
    · rw [Int.toNat_natCast, Nat.add_comm, List.drop_succ_cons]
      conv => arg 1; arg 1; arg 2; rw [← hsplit]
      rw [List.drop_left, hrest]
      rfl
    · have hd := List.head?_dropWhile_not (fun c => decide (c ∈ WORD)) q
      rw [hrest] at hd
      simpa using hd

/-! ### Positions -/

variable {src : List Octet} {i : ℤ}

theorem peek_eq (h0 : 0 ≤ i) : lexemes.peek src i = ((lexeme (skip isspace false (src.drop i.toNat))).1,
    src.length - (skip isspace false (src.drop i.toNat)).length +
      (lexeme (skip isspace false (src.drop i.toNat))).2) := by
  rw [Lexemes.peek, if_neg (not_lt.mpr h0)]
  rfl

/-- A token at `i` ends within the text, and not before `i`, unless it is an integer that begins at `i`. -/
theorem peek_fits (h0 : 0 ≤ i) (hi : i ≤ src.length) :
    (lexemes.peek src i).2 ≤ src.length ∧ (i ≤ (lexemes.peek src i).2 ∨
      (lexemes.peek src i).1.type = .integer ∧ 2 ≤ (src.drop i.toNat).length ∧
        ∃ c ∈ (src.drop i.toNat).head?, isdigit c) := by
  obtain ⟨v, hv⟩ := skip_suffix isspace false (src.drop i.toNat)
  have hlen := congrArg List.length hv
  rw [List.length_append, List.length_drop] at hlen
  obtain ⟨hle, hpos⟩ := fits_lexeme (skip isspace false (src.drop i.toNat))
  have hpeek := @peek_eq src i h0
  rw [hpeek]
  refine ⟨by dsimp only; omega, ?_⟩
  rcases hpos with hpos | ⟨hback, htype, htwo, hdigit⟩
  · exact .inl (by dsimp only; omega)
  · cases v with
    | nil =>
      rw [List.nil_append] at hv
      exact .inr ⟨htype, hv ▸ ⟨htwo, hdigit⟩⟩
    | cons c v =>
      rw [List.length_cons] at hlen
      exact .inl (by dsimp only; omega)

/-- After a closing brace or a semicolon the lexer has advanced. -/
theorem peek_end (h0 : 0 ≤ i) (hi : i ≤ src.length)
    (h : (lexemes.peek src i).1.type = .close ∨ (lexemes.peek src i).1.type = .termx) :
    i < (lexemes.peek src i).2 := by
  have hlen := (skip_suffix isspace false (src.drop i.toNat)).length_le
  rw [List.length_drop] at hlen
  rw [peek_eq h0] at h ⊢
  dsimp only
  rw [lexeme_end h]
  omega

/-- After a keyword the lexer does not go back. -/
theorem peek_keyword {k : Keyword} (h0 : 0 ≤ i) (hi : i ≤ src.length) (h : (lexemes.peek src i).1.type = .keyword k) :
    i ≤ (lexemes.peek src i).2 ∧ (lexemes.peek src i).2 ≤ src.length ∧
      (lexemes.peek src i).2 ≤ (lexemes.peek src (lexemes.peek src i).2).2 ∧
      (lexemes.peek src (lexemes.peek src i).2).2 ≤ src.length := by
  obtain ⟨v, hv⟩ := skip_suffix isspace false (src.drop i.toNat)
  obtain ⟨hle, -⟩ := peek_fits h0 hi
  rw [peek_eq h0] at h hle ⊢
  generalize hr : skip isspace false (src.drop i.toNat) = r at *
  obtain ⟨hpos, hboundary⟩ := keyword_boundary h
  have hlen := congrArg List.length hv
  rw [List.length_append, List.length_drop] at hlen
  dsimp only at hle ⊢
  have hfrom : i ≤ src.length - r.length + (lexeme r).2 := by omega
  have hrest : src.drop (src.length - r.length + (lexeme r).2 : ℤ).toNat = r.drop (lexeme r).2.toNat := by
    have hsrc : src.drop (i.toNat + v.length) = r := by rw [← List.drop_drop, ← hv, List.drop_left]
    rw [← hsrc, List.drop_drop]
    refine congrArg (List.drop · src) ?_
    rw [hsrc]
    omega
  obtain ⟨hend, hnext⟩ := peek_fits (h0.trans hfrom) hle
  refine ⟨hfrom, hle, hnext.resolve_right ?_, hend⟩
  rw [hrest]
  rintro ⟨-, htwo, c, hc, hdigit⟩
  rcases hboundary with hone | ⟨d, hd, hword⟩
  · omega
  · obtain rfl := Option.mem_unique hc hd
    exact hword (mem_word_of_isdigit c hdigit)

/-! ### What parser functions do -/

/-- What the loop of `parse` ends with. -/
def Stop (x : ℤ × Parser) : Prop := x.1 ≠ 0 ∨ x.2.f = none

/-- A consumer of one token, which fails with the tokens of `bad`. -/
def Single (bad : Token → Prop) (m : Parse) : Prop :=
  ∃ g, m = .read g ∧ ∀ t, ∃ x, g t = .done x ∧ (bad t → x.1 ≠ 0)

/-- A token that is no value for the keyword `k`. -/
def NoValue (k : Keyword) (t : Token) : Prop := Final t ∨ t.type = .keyword k

/-- What a parser function does after its first token. -/
inductive Continues (t : Token) : Parse → Prop where
  /-- It is over. -/
  | finished {x : ℤ × Parser} : (Final t → Stop x) → (x.1 = 0 → x.2.f ≠ none → t.type = .close ∨ t.type = .termx) →
      Continues t (.done x)
  /-- It takes another token. -/
  | single {k : Keyword} {m : Parse} : t.type = .keyword k → Single (NoValue k) m → Continues t m
  /-- It takes another token and a brace. -/
  | double {k : Keyword} {m : Token → Parse} : t.type = .keyword k →
      (∀ t', (∃ x, m t' = .done x ∧ x.1 ≠ 0) ∨ (¬NoValue k t' ∧ Single (fun t => t.type ≠ .open) (m t'))) →
      Continues t (.read m)

variable {t : Token} {p : Parser} {k : Keyword}

theorem asString_noValue (h : NoValue k t) : asString t = none := by
  rcases h with (h | h) | h <;> rw [asString, h]

theorem asInt_noValue {types : List TokenType} (htypes : ∀ x ∈ types, x = .integer ∨ x = .time ∨ x = .size)
    (h : NoValue k t) : asInt types t = none := by
  rw [asInt, if_neg]
  intro hmem
  have htype := htypes _ hmem
  rcases h with (h | h) | h <;> rw [h] at htype <;> simp at htype

theorem withString_single (set : CString → Parser) : Single (NoValue k) (withString p set) := by
  refine ⟨_, rfl, fun t => ?_⟩
  simp only [Consumer.done_bind]
  cases hs : asString t with
  | none => exact ⟨(-1, p), rfl, fun _ => neg_ne_zero.mpr one_ne_zero⟩
  | some s => exact ⟨(0, set s), rfl, fun ht => absurd (hs.symm.trans (asString_noValue ht)) (Option.some_ne_none s)⟩

theorem withInt_single {value : Token → Option ℤ} (hvalue : ∀ t, NoValue k t → value t = none) (lo : ℤ)
    (set : ℤ → Parser) : Single (NoValue k) (withInt p value lo set) := by
  refine ⟨_, rfl, fun t => ?_⟩
  simp only [Consumer.done_bind]
  cases hv : value t with
  | none => exact ⟨(1, p), rfl, fun _ => one_ne_zero⟩
  | some i => exact ⟨_, rfl, fun ht => absurd (hv.symm.trans (hvalue t ht)) (Option.some_ne_none i)⟩

theorem withKeyword_single {value : Keyword → Option ℤ} (hvalue : value k = none) (set : ℤ → Parser) :
    Single (NoValue k) (withKeyword p value set) := by
  refine ⟨_, rfl, fun t => ?_⟩
  simp only [Consumer.done_bind]
  split
  · rename_i k' hk'
    cases hv : value k' with
    | none => exact ⟨(1, p), rfl, fun _ => one_ne_zero⟩
    | some i =>
      refine ⟨(0, set i), rfl, fun ht => ?_⟩
      rcases ht with (ht | ht) | ht <;> rw [hk'] at ht <;> cases ht
      rw [hvalue] at hv
      cases hv
  · exact ⟨(1, p), rfl, fun _ => one_ne_zero⟩

theorem withOpen_single (p : Parser) (f : ParseFn) : Single (fun t => t.type ≠ .open) (withOpen p f) := by
  refine ⟨_, rfl, fun t => ?_⟩
  simp only [Consumer.done_bind]
  split_ifs with hopen
  · exact ⟨_, rfl, fun hne => absurd hopen hne⟩
  · exact ⟨(-1, p), rfl, fun _ => neg_ne_zero.mpr one_ne_zero⟩

theorem Single.mono {bad bad' : Token → Prop} {m : Parse} (h : Single bad m) (himp : ∀ t, bad' t → bad t) :
    Single bad' m := by
  obtain ⟨g, hm, hg⟩ := h
  refine ⟨g, hm, fun t => ?_⟩
  obtain ⟨x, hx, hbad⟩ := hg t
  exact ⟨x, hx, fun ht => hbad (himp t ht)⟩

theorem noValue_ne_open (h : NoValue k t) : t.type ≠ .open := by
  rcases h with (h | h) | h <;> rw [h] <;> exact TokenType.noConfusion

/-- A failure. -/
theorem continues_fail (p : Parser) : Continues t (.done (1, p)) :=
  .finished (fun _ => .inl one_ne_zero) fun h0 => absurd h0 one_ne_zero

/-- A closing brace or a semicolon. -/
theorem continues_end (h : t.type = .close ∨ t.type = .termx) (p : Parser) : Continues t (.done (0, p)) := by
  refine .finished (fun hfinal => ?_) fun _ _ => h
  rcases hfinal with hf | hf <;> rcases h with h | h <;> rw [h] at hf <;> cases hf

theorem parseTop_cases (p : Parser) : ∃ g, parseTop p = .read g ∧ ∀ t, Continues t (g t) := by
  refine ⟨_, rfl, fun t => ?_⟩
  simp only [Consumer.done_bind]
  split
  · exact .single ‹_› (withString_single _)
  · exact .single ‹_› (withString_single _)
  · exact .single ‹_› (withString_single _)
  · exact .single ‹_› (withString_single _)
  · exact .single ‹_› (withString_single _)
  · exact .single ‹_› (withString_single _)
  · exact .single ‹_› (withString_single _)
  · exact .single ‹_› (withKeyword_single rfl _)
  · exact .single ‹_› (withInt_single (fun _ => asInt_noValue (by decide)) _ _)
  · exact .single ‹_› ((withOpen_single p .tls).mono fun _ => noValue_ne_open)
  · exact .single ‹_› ((withOpen_single p .health).mono fun _ => noValue_ne_open)
  · refine .double ‹_› fun t' => ?_
    simp only [Consumer.done_bind]
    split_ifs with hdefault
    · refine .inr ⟨?_, withOpen_single _ .backend⟩
      rintro ((h | h) | h) <;> rw [hdefault] at h <;> cases h
    · cases hs : asString t' with
      | none => exact .inl ⟨(-1, p), rfl, neg_ne_zero.mpr one_ne_zero⟩
      | some s =>
        exact .inr ⟨fun h => absurd (hs.symm.trans (asString_noValue h)) (Option.some_ne_none s),
          withOpen_single _ .backend⟩
  · rename_i h
    exact .finished (fun _ => .inr rfl) fun _ hf => absurd rfl hf
  · exact continues_fail _

theorem parseBackend_cases (p : Parser) :
    ∃ g, parseBackend p = .read g ∧ ∀ t, Continues t (g t) := by
  refine ⟨_, rfl, fun t => ?_⟩
  simp only [Consumer.done_bind]
  split
  · exact .single ‹_› (withKeyword_single rfl _)
  · exact .single ‹_› (withInt_single (fun _ => asInt_noValue (by decide)) _ _)
  · refine .single ‹_› (withInt_single (fun t ht => ?_) _ _)
    rw [if_neg, asInt_noValue (by decide) ht]
    intro hdecimal
    rcases ht with (ht | ht) | ht <;> rw [hdecimal] at ht <;> cases ht
  · exact continues_end (.inl ‹_›) _
  · exact continues_end (.inr ‹_›) _
  · exact continues_fail _

theorem parseHealth_cases (p : Parser) : ∃ g, parseHealth p = .read g ∧ ∀ t, Continues t (g t) := by
  refine ⟨_, rfl, fun t => ?_⟩
  simp only [Consumer.done_bind]
  split
  · exact .single ‹_› (withString_single _)
  · exact .single ‹_› (withString_single _)
  · exact .single ‹_› (withString_single _)
  · exact .single ‹_› (withInt_single (fun _ => asInt_noValue (by decide)) _ _)
  · exact .single ‹_› (withInt_single (fun _ => asInt_noValue (by decide)) _ _)
  · exact continues_end (.inl ‹_›) _
  · exact continues_fail _

theorem parseTls_cases (p : Parser) : ∃ g, parseTls p = .read g ∧ ∀ t, Continues t (g t) := by
  refine ⟨_, rfl, fun t => ?_⟩
  simp only [Consumer.done_bind]
  split
  · exact .single ‹_› (withString_single _)
  · exact .single ‹_› (withString_single _)
  · exact .single ‹_› (withString_single _)
  · exact continues_end (.inl ‹_›) _
  · exact continues_fail _

/-- A parser function takes a token, and goes on with it. -/
theorem call_cases (f : ParseFn) (p : Parser) :
    ∃ g, f.call p = .read g ∧ ∀ t, Continues t (g t) := by
  cases f with
  | top => exact parseTop_cases p
  | backend => exact parseBackend_cases p
  | health => exact parseHealth_cases p
  | tls => exact parseTls_cases p

/-! ### What they take -/

theorem Single.ends {m : Parse} (h : Single (NoValue k) m) : m.Ends Final Stop := by
  obtain ⟨g, rfl, hg⟩ := h
  intro t
  obtain ⟨x, hx, hbad⟩ := hg t
  rw [hx]
  exact ⟨trivial, fun hfinal => ⟨x, rfl, .inl (hbad (.inl hfinal))⟩⟩

theorem Continues.ends {m : Parse} (h : Continues t m) : m.Ends Final Stop := by
  cases h with
  | finished _ _ => trivial
  | single _ hm => exact hm.ends
  | @double k _ _ hm =>
    intro t'
    rcases hm t' with ⟨x, hx, hne⟩ | ⟨hvalue, g, hg, hbad⟩
    · rw [hx]
      exact ⟨trivial, fun _ => ⟨x, rfl, .inl hne⟩⟩
    · refine ⟨?_, fun hfinal => absurd (.inl hfinal) hvalue⟩
      exact Single.ends (k := k) (Single.mono ⟨g, hg, hbad⟩ fun _ => noValue_ne_open)

theorem Continues.final {m : Parse} (h : Continues t m) (hfinal : Final t) : ∃ x, m = .done x ∧ Stop x := by
  have hne : ∀ k, t.type ≠ .keyword k := fun k hk => by rcases hfinal with hf | hf <;> rw [hf] at hk <;> cases hk
  cases h with
  | finished hstop _ => exact ⟨_, rfl, hstop hfinal⟩
  | single hk _ => exact absurd hk (hne _)
  | double hk _ => exact absurd hk (hne _)

/-- With a final token a parser function stops. -/
theorem call_ends (f : ParseFn) (p : Parser) : (f.call p).Ends Final Stop := by
  obtain ⟨g, hcall, hg⟩ := call_cases f p
  rw [hcall]
  exact fun t => ⟨(hg t).ends, (hg t).final⟩

/-- So does the loop of `parse`. -/
theorem parse_ends (n : ℕ) (p : Parser) :
    (parse n p).Ends Final fun _ => True := by
  induction n generalizing p with
  | zero => trivial
  | succ n ih =>
    cases hf : p.f with
    | none =>
      rw [parse_none hf]
      trivial
    | some f =>
      rw [parse_some hf]
      refine (call_ends f p).bind (fun x => ?_) fun x hstop => ?_
      · split_ifs
        · exact ih x.2
        · trivial
      · split_ifs with hx
        · cases n with
          | zero => exact ⟨none, rfl, trivial⟩
          | succ n => exact ⟨_, parse_none (hstop.resolve_left (not_not_intro hx)), trivial⟩
        · exact ⟨_, rfl, trivial⟩

/-- A parser function that succeeds has advanced. -/
theorem call_advances (f : ParseFn) (p : Parser) (h0 : 0 ≤ i) (hi : i ≤ src.length)
    (hrc : ((f.call p).eval (lexemes.peek src) i).1.1 = 0)
    (hf : ((f.call p).eval (lexemes.peek src) i).1.2.f ≠ none) :
    i < ((f.call p).eval (lexemes.peek src) i).2 ∧
      ((f.call p).eval (lexemes.peek src) i).2 ≤ src.length := by
  obtain ⟨g, hcall, hg⟩ := call_cases f p
  rw [hcall, Consumer.eval_read] at hrc hf ⊢
  have hcont := hg (lexemes.peek src i).1
  generalize g (lexemes.peek src i).1 = m at *
  cases hcont with
  | finished _ hend => exact ⟨peek_end h0 hi (hend hrc hf), (peek_fits h0 hi).1⟩
  | single hk hm =>
    obtain ⟨hfirst, hle, hsecond, hend⟩ := peek_keyword h0 hi hk
    obtain ⟨g', rfl, hg'⟩ := hm
    rw [Consumer.eval_read] at hrc ⊢
    obtain ⟨x, hx, hbad⟩ := hg' (lexemes.peek src (lexemes.peek src i).2).1
    rw [hx, Consumer.eval_done] at hrc ⊢
    refine ⟨lt_of_le_of_ne (hfirst.trans hsecond) fun heq => ?_, hend⟩
    -- the keyword is delivered again
    have hsame : (lexemes.peek src i).2 = i := le_antisymm (hsecond.trans heq.ge) hfirst
    rw [hsame] at hbad
    exact hbad (.inr hk) hrc
  | double hk hm =>
    obtain ⟨hfirst, hle, hsecond, hend⟩ := peek_keyword h0 hi hk
    rw [Consumer.eval_read] at hrc ⊢
    rcases hm (lexemes.peek src (lexemes.peek src i).2).1 with ⟨x, hx, hne⟩ | ⟨hvalue, g', hg', hbad⟩
    · rw [hx] at hrc
      exact absurd hrc hne
    · rw [hg', Consumer.eval_read] at hrc ⊢
      obtain ⟨x, hx, hopen⟩ := hbad (lexemes.peek src (lexemes.peek src (lexemes.peek src i).2).2).1
      rw [hx, Consumer.eval_done] at hrc ⊢
      obtain ⟨hend', hthird⟩ := peek_fits (h0.trans (hfirst.trans hsecond)) hend
      have hforward := hthird.resolve_right fun hint =>
        hopen (fun heq => TokenType.noConfusion (heq.symm.trans hint.1)) hrc
      refine ⟨lt_of_le_of_ne (hfirst.trans (hsecond.trans hforward)) fun heq => ?_, hend'⟩
      have hsame : (lexemes.peek src i).2 = i := le_antisymm ((hsecond.trans hforward).trans heq.ge) hfirst
      rw [hsame] at hvalue
      exact hvalue (.inr hk)

/-- The loop of `parse` comes to an end, if it has as many rounds as octets are left, and two more. More rounds
make no difference. -/
theorem parse_eval (src : List Octet) (n : ℕ) (p : Parser) (i : ℤ) (hn : 1 ≤ n)
    (hleft : p.f ≠ none → 0 ≤ i ∧ i ≤ src.length ∧ src.length + 2 ≤ n + i) :
    ∃ x, ∀ k, ((parse (n + k) p).eval (lexemes.peek src) i).1 = some x := by
  induction n generalizing p i with
  | zero => omega
  | succ n ih =>
    cases hf : p.f with
    | none =>
      refine ⟨(0, p), fun k => ?_⟩
      rw [Nat.succ_add, parse_none hf]
      rfl
    | some f =>
      obtain ⟨h0, hi, hbound⟩ := hleft (by rw [hf]; exact Option.some_ne_none f)
      have hadvances := @call_advances src i f p h0 hi
      simp only [Nat.succ_add, parse_some hf, Consumer.eval_bind]
      generalize (f.call p).eval (lexemes.peek src) i = x at *
      by_cases hrc : x.1.1 = 0
      · simp only [if_pos hrc]
        refine ih _ _ (by omega) fun hnext => ?_
        obtain ⟨hlt, hle⟩ := hadvances hrc hnext
        exact ⟨by omega, hle, by omega⟩
      · simp only [if_neg hrc]
        exact ⟨_, fun _ => rfl⟩

/-- `parse` returns. -/
theorem exists_run (text : List Octet) :
    ∃ x, ∀ k, ∃ l, (parse (text.length + 2 + k) parserInit).run (emit rules) (lexerInit text) =
      some (some x, l) := by
  obtain ⟨x, hx⟩ := parse_eval text (text.length + 2) parserInit 0 (by omega) fun _ =>
    ⟨le_rfl, Int.natCast_nonneg _, by omega⟩
  refine ⟨x, fun k => ?_⟩
  rw [← hx k]
  obtain ⟨l, hrun, -⟩ := lexemes.run_emit (parse_ends _ _) text 0
  exact ⟨l, hrun⟩

end PgRouter.Config
