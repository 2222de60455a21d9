import PgRouter.Config.Progress
import PgRouter.Text.Newline

/-!
# The end of a configuration

A newline at the end of a configuration should carry no meaning. But at the end of the text `next` does not
advance, and where a lexer function calls `backup` or `restart` then, the token loses its last octet or all
of them: so do words, numbers without a unit or with `k`, `m` or `g`, and addresses (`CutShort`). All other
tokens are the same with a newline behind the text (`lexeme_append`), so if the parser takes none of those,
the configuration is the same (`pgrConfigure_append`).
-/

namespace PgRouter.Config

open Foundation Wire Text

/-! ### Tokens that are cut short -/

/-- The text is a colon and the digits of a port. -/
def CutPort (q : List Octet) : Prop := q.head? = some (ch ':') ∧ digits q.tail ≠ [] ∧ afterDigits q.tail = []

/-- Behind an address, the text ends, or it does behind the port. -/
def CutAddress (q : List Octet) : Prop := q = [] ∨ CutPort q

/-- The text is a number, with one of `k`, `m` and `g` behind it or without. -/
def CutNumber (r : List Octet) : Prop :=
  (afterDigits r).length ≤ 1 ∧ ∀ c ∈ (afterDigits r).head?, c ∈ octets "kKmMgG"

/-- The text is an address or a number like this. -/
def CutNumeric (r : List Octet) : Prop :=
  (∀ q ∈ groups 3 r.tail, CutAddress q) ∧ (groups 3 r.tail = none → CutNumber r)

/-- The text is a word. -/
def CutWord (r : List Octet) : Prop := r.tail.dropWhile (· ∈ WORD) = []

/-- The token at the beginning of the text reaches its end, and loses octets there. -/
def CutShort (r : List Octet) : Prop :=
  match r with
  | [] => False
  | c :: q =>
    if isdigit c then CutNumeric r
    else if isalnum c ∨ c = ch '/' then CutWord r
    else c = ch '*' ∧ CutPort q

instance (q : List Octet) : Decidable (CutPort q) := inferInstanceAs (Decidable (_ ∧ _ ∧ _))

instance (q : List Octet) : Decidable (CutAddress q) := inferInstanceAs (Decidable (_ ∨ _))

instance (r : List Octet) : Decidable (CutNumber r) := inferInstanceAs (Decidable (_ ∧ _))

instance (r : List Octet) : Decidable (CutNumeric r) := inferInstanceAs (Decidable (_ ∧ _))

instance (r : List Octet) : Decidable (CutWord r) := inferInstanceAs (Decidable (_ = _))

instance : DecidablePred CutShort
  | [] => .isFalse not_false
  | c :: q =>
    inferInstanceAs (Decidable (if isdigit c then CutNumeric (c :: q)
      else if isalnum c ∨ c = ch '/' then CutWord (c :: q) else c = ch '*' ∧ CutPort q))

variable {r q : List Octet} {c : Octet}

/-! ### The other tokens -/

theorem digits_append (r : List Octet) : digits (r ++ [newline]) = digits r :=
  takeWhile_append_newline (by decide) r

theorem afterDigits_append (r : List Octet) : afterDigits (r ++ [newline]) = afterDigits r ++ [newline] :=
  dropWhile_append_newline (by decide) r

theorem groups_append (k : ℕ) (r : List Octet) : groups k (r ++ [newline]) = (groups k r).map (· ++ [newline]) := by
  induction k generalizing r with
  | zero =>
    rw [groups, groups, digits_append, afterDigits_append]
    split_ifs <;> rfl
  | succ k ih =>
    rw [groups, groups, digits_append, afterDigits_append]
    split_ifs
    · rfl
    · cases afterDigits r with
      | nil => rfl
      | cons c q =>
        simp only [List.cons_append]
        split_ifs
        · exact ih q
        · rfl

/-- A value within the text. -/
theorem valued_append (t : Token) {len : ℤ} (h : len ≤ r.length) :
    valued t (r ++ [newline]) len = valued t r len := by
  rw [valued, valued, List.take_append_of_le_length (by omega)]

theorem wordLexeme_append (h : ¬CutWord (c :: q)) : wordLexeme (c :: q ++ [newline]) = wordLexeme (c :: q) := by
  have hword : (decide (newline ∈ WORD)) = false := by decide
  have hlen : 1 + (q.takeWhile (· ∈ WORD)).length ≤ (c :: q).length := by
    rw [List.length_cons]
    have htake := (List.takeWhile_sublist (l := q) (· ∈ WORD)).length_le
    omega
  have htail : (c :: q ++ [newline]).tail = q ++ [newline] := rfl
  have hcut : cut (1 + (q.takeWhile (· ∈ WORD)).length) (q.dropWhile (· ∈ WORD)) =
    (1 + (q.takeWhile (· ∈ WORD)).length : ℕ) :=
    cut_of_ne h
  rw [wordLexeme, wordLexeme, htail, List.tail_cons, takeWhile_append_newline hword, dropWhile_append_newline hword,
    cut_append_newline, hcut, Int.toNat_natCast, List.take_append_of_le_length hlen]
  simp only [valued_append _ (Int.ofNat_le.mpr hlen)]

theorem portLexeme_append {len : ℕ} (hlen : len + 1 + q.length ≤ r.length) (h : ¬(digits q ≠ [] ∧ afterDigits q = [])) :
    portLexeme (r ++ [newline]) len (q ++ [newline]) = portLexeme r len q := by
  have hdigits := digits_length_add q
  rw [portLexeme, portLexeme, digits_append, afterDigits_append, cut_append_newline]
  split_ifs with hnil
  · rfl
  · rw [cut_of_ne fun hend => h ⟨hnil, hend⟩, valued_append]
    exact Int.ofNat_le.mpr (by omega)

theorem addressLexeme_append (hq : q.length ≤ r.length) (h : ¬CutAddress q) :
    addressLexeme (r ++ [newline]) (q ++ [newline]) = addressLexeme r q := by
  cases q with
  | nil => exact absurd (.inl rfl) h
  | cons d p =>
    have hlen : (r ++ [newline]).length - (d :: p ++ [newline]).length = r.length - (d :: p).length := by
      rw [List.length_append, List.length_append]
      omega
    simp only [List.cons_append] at hlen
    simp only [addressLexeme, List.cons_append, hlen]
    split_ifs with hcolon
    · refine portLexeme_append ?_ fun hport => h (.inr ⟨congrArg some hcolon, hport⟩)
      rw [List.length_cons] at hq ⊢
      omega
    · exact valued_append _ (Int.ofNat_le.mpr (Nat.sub_le _ _))

theorem wildcardLexeme_append (h : ¬CutPort q) :
    wildcardLexeme (ch '*' :: q ++ [newline]) (q ++ [newline]) = wildcardLexeme (ch '*' :: q) q := by
  cases q with
  | nil => rfl
  | cons d p =>
    simp only [wildcardLexeme, List.cons_append]
    split_ifs with hcolon
    · refine portLexeme_append (q := p) (r := ch '*' :: d :: p) ?_ fun hport => h ⟨congrArg some hcolon, hport⟩
      simp only [List.length_cons]
      omega
    · rfl

theorem pastNul_append (k : ℕ) (q : List Octet) :
    pastNul k (q ++ [newline]) = ((pastNul k q).1, (pastNul k q).2 ++ [newline]) := by
  cases q with
  | nil => rfl
  | cons c q =>
    rw [List.cons_append, pastNul, pastNul]
    split_ifs <;> rfl

theorem pastNul_of_not_mem (k : ℕ) (h : 0 ∉ q) : pastNul k q = (k, q) := by
  cases q with
  | nil => rfl
  | cons c q =>
    have hc : c ≠ 0 := fun heq => h (heq ▸ List.mem_cons_self)
    rw [pastNul, if_neg hc]

/-- The characters that may come before the `b` of a size. -/
theorem mem_factor_of_strchr (h0 : c ≠ 0) (hb : ¬(c = ch 'b' ∨ c = ch 'B')) (h : strchr (octets "kKmMgGbB") c) :
    c ∈ octets "kKmMgG" := by
  have hmem : c ∈ octets "kKmMgG" ++ [ch 'b', ch 'B'] := by
    rw [strchr, decide_eq_false h0, Bool.or_false] at h
    exact of_decide_eq_true h
  rcases List.mem_append.mp hmem with hmem | hmem
  · exact hmem
  · exact absurd (by simpa using hmem) hb

theorem unitLexeme_append (ival : UInt32) {k : ℕ} (hk : k + q.length ≤ r.length) (h0 : 0 ∉ q)
    (h : ¬(q.length ≤ 1 ∧ ∀ c ∈ q.head?, c ∈ octets "kKmMgG")) :
    unitLexeme (r ++ [newline]) ival k (q ++ [newline]) = unitLexeme r ival k q := by
  cases q with
  | nil => exact absurd ⟨Nat.zero_le 1, fun c hc => absurd hc (Option.not_mem_none c)⟩ h
  | cons c p =>
    have hc : c ≠ 0 := fun heq => h0 (heq ▸ List.mem_cons_self)
    have hvalued : ∀ (t : Token) (len : ℕ), len ≤ r.length → valued t (r ++ [newline]) len = valued t r len :=
      fun t len hlen => valued_append t (Int.ofNat_le.mpr hlen)
    have hhead : strchr (octets "kKmMgGbB") c → ¬(c = ch 'b' ∨ c = ch 'B') → (p ++ [newline]).headD 0 = p.headD 0 := by
      intro hchr hb
      cases p with
      | nil =>
        refine absurd ⟨le_rfl, fun d hd => ?_⟩ h
        obtain rfl : c = d := Option.some.inj hd
        exact mem_factor_of_strchr hc hb hchr
      | cons d p => rfl
    rw [List.length_cons] at hk
    simp only [unitLexeme, List.cons_append, digits_append, afterDigits_append, pastNul_append]
    by_cases hdot : c = ch '.'
    · have hlen := pastNul_length (k + 1 + (digits p).length) (afterDigits p)
      have hdigits := digits_length_add p
      rw [if_pos hdot, if_pos hdot]
      exact hvalued _ _ (by omega)
    rw [if_neg hdot, if_neg hdot]
    by_cases hb : c = ch 'b' ∨ c = ch 'B'
    · rw [if_pos hb, if_pos hb]
      exact hvalued _ _ (by omega)
    rw [if_neg hb, if_neg hb]
    by_cases hchr : strchr (octets "kKmMgGbB") c
    · rw [if_pos hchr, if_pos hchr, hhead hchr hb]
      split_ifs with hsize
      · have hp : p ≠ [] := fun heq => absurd hsize (by rw [heq]; decide)
        have hpos := List.length_pos_of_ne_nil hp
        exact hvalued _ _ (by omega)
      · exact hvalued _ 0 (Nat.zero_le _)
      · exact valued_append _ (by omega)
    · rw [if_neg hchr, if_neg hchr]
      split_ifs
      · exact hvalued _ _ (by omega)
      · exact hvalued _ _ (by omega)

theorem numberLexeme_append (h0 : 0 ∉ r) (h : ¬CutNumber r) : numberLexeme (r ++ [newline]) = numberLexeme r := by
  have hlen := digits_length_add r
  have hafter : 0 ∉ afterDigits r := fun hmem => h0 ((List.dropWhile_suffix _).subset hmem)
  simp only [numberLexeme, digits_append, afterDigits_append, pastNul_append, pastNul_of_not_mem _ hafter]
  exact unitLexeme_append _ hlen.le hafter h

theorem numericLexeme_append (h0 : 0 ∉ c :: q) (h : ¬CutNumeric (c :: q)) :
    numericLexeme (c :: q ++ [newline]) = numericLexeme (c :: q) := by
  have htail : (c :: q ++ [newline]).tail = q ++ [newline] := rfl
  rw [numericLexeme, numericLexeme, htail, List.tail_cons, groups_append]
  rw [CutNumeric, List.tail_cons] at h
  cases hq : groups 3 q with
  | none =>
    rw [hq] at h
    exact numberLexeme_append h0 fun hcut => h ⟨fun p hp => absurd hp (Option.not_mem_none p), fun _ => hcut⟩
  | some p =>
    have hlen : p.length ≤ (c :: q).length := (groups_length hq).trans (Nat.le_succ _)
    rw [hq] at h
    refine addressLexeme_append hlen fun hcut => h ⟨fun p' hp => ?_, fun hnone => absurd hnone (Option.some_ne_none p)⟩
    exact Option.some.inj hp ▸ hcut

/-- A token that is not cut short is the same with a newline behind the text. -/
theorem lexeme_append (hr : r ≠ []) (h0 : 0 ∉ r) (h : ¬CutShort r) : lexeme (r ++ [newline]) = lexeme r := by
  cases r with
  | nil => exact absurd rfl hr
  | cons c q =>
    simp only [CutShort] at h
    simp only [lexeme, List.cons_append]
    by_cases hquote : c = 0x27 ∨ c = 0x22
    · have hc : c ≠ newline := by rcases hquote with rfl | rfl <;> decide
      simp only [if_pos hquote, quoted_append_newline _ _ hc]
    simp only [if_neg hquote]
    by_cases hdigit : isdigit c
    · rw [if_pos hdigit] at h
      rw [if_pos hdigit, if_pos hdigit, ← List.cons_append, numericLexeme_append h0 h]
    rw [if_neg hdigit] at h
    rw [if_neg hdigit, if_neg hdigit]
    by_cases hword : isalnum c ∨ c = ch '/'
    · rw [if_pos hword] at h
      rw [if_pos hword, if_pos hword, ← List.cons_append, wordLexeme_append h]
    rw [if_neg hword] at h
    rw [if_neg hword, if_neg hword]
    by_cases hstar : c = ch '*'
    · obtain rfl := hstar
      rw [← List.cons_append, wildcardLexeme_append fun hport => h ⟨rfl, hport⟩]
    · rw [if_neg hstar, if_neg hstar]

/-! ### The tokens that are cut short -/

theorem wordLexeme_length (r : List Octet) :
    (wordLexeme r).2 = cut (1 + (r.tail.takeWhile (· ∈ WORD)).length) (r.tail.dropWhile (· ∈ WORD)) := by
  simp only [wordLexeme]
  split <;> rfl

/-- The lexer is not at an end with `y`, and `y'` is another token or another length. -/
def Loses (y y' : Lexeme) : Prop := ¬Final y.1 ∧ y' ≠ y

theorem not_final_of_type {t : Token} {type : TokenType} (h : t.type = type) (heos : type ≠ .eos)
    (herror : type ≠ .error) :
    ¬Final t := by
  rintro (hend | hend)
  · exact heos (h.symm.trans hend)
  · exact herror (h.symm.trans hend)

theorem wordLexeme_loses (h : CutWord (c :: q)) : Loses (wordLexeme (c :: q)) (wordLexeme (c :: q ++ [newline])) := by
  constructor
  · rcases wordLexeme_type (c :: q) with ⟨k, hk⟩ | hk
    · exact not_final_of_type hk TokenType.noConfusion TokenType.noConfusion
    · exact not_final_of_type hk TokenType.noConfusion TokenType.noConfusion
  · intro heq
    have hlen := congrArg Prod.snd heq
    have hword : (decide (newline ∈ WORD)) = false := by decide
    have hend : q.dropWhile (· ∈ WORD) = [] := h
    have htail : (c :: q ++ [newline]).tail = q ++ [newline] := rfl
    rw [wordLexeme_length, wordLexeme_length, htail, List.tail_cons, takeWhile_append_newline hword,
      dropWhile_append_newline hword, cut_append_newline, hend, cut_nil] at hlen
    omega

theorem portLexeme_loses {len : ℕ} (h : digits q ≠ [] ∧ afterDigits q = []) :
    Loses (portLexeme r len q) (portLexeme (r ++ [newline]) len (q ++ [newline])) := by
  rw [portLexeme, portLexeme, digits_append, afterDigits_append, if_neg h.1, if_neg h.1, h.2]
  refine ⟨not_final_of_type rfl TokenType.noConfusion TokenType.noConfusion, fun heq => ?_⟩
  have hlen := congrArg Prod.snd heq
  simp only [valued, cut_append_newline, cut_nil] at hlen
  omega

theorem addressLexeme_loses (h : CutAddress q) :
    Loses (addressLexeme r q) (addressLexeme (r ++ [newline]) (q ++ [newline])) := by
  rcases h with rfl | ⟨hcolon, hport⟩
  · refine ⟨not_final_of_type rfl TokenType.noConfusion TokenType.noConfusion, fun heq => ?_⟩
    have hlen := congrArg Prod.snd heq
    have hnewline : ¬newline = ch ':' := by decide
    simp only [addressLexeme, List.nil_append, if_neg hnewline, valued, cut_nil, List.length_append,
      List.length_singleton, Nat.add_sub_cancel] at hlen
    omega
  · obtain ⟨p, rfl⟩ := List.head?_eq_some_iff.mp hcolon
    have hlen : (r ++ [newline]).length - (ch ':' :: (p ++ [newline])).length = r.length - (ch ':' :: p).length := by
      simp only [List.length_append, List.length_cons]
      omega
    simp only [addressLexeme, List.cons_append, if_true, hlen]
    exact portLexeme_loses hport

/-- A number that is cut short is taken for a time. -/
theorem unitLexeme_type (ival : UInt32) (k : ℕ) (h : q.length ≤ 1 ∧ ∀ c ∈ q.head?, c ∈ octets "kKmMgG") :
    (unitLexeme r ival k q).1.type = .time ∧
      (unitLexeme (r ++ [newline]) ival k (q ++ [newline])).1.type = .integer := by
  have hfactor : ∀ c ∈ octets "kKmMgG", ¬c = ch '.' ∧ ¬(c = ch 'b' ∨ c = ch 'B') ∧ strchr (octets "kKmMgGbB") c := by
    decide +kernel
  match q with
  | [] => exact ⟨rfl, rfl⟩
  | [c] =>
    obtain ⟨hdot, hb, hchr⟩ := hfactor c (h.2 c rfl)
    constructor
    · simp only [unitLexeme, if_neg hdot, if_neg hb, if_pos hchr]
      rfl
    · simp only [unitLexeme, List.cons_append, List.nil_append, if_neg hdot, if_neg hb, if_pos hchr]
      rfl
  | _ :: _ :: _ => exact absurd h.1 (by simp)

theorem numberLexeme_loses (h0 : 0 ∉ r) (h : CutNumber r) : Loses (numberLexeme r) (numberLexeme (r ++ [newline])) := by
  have hafter : 0 ∉ afterDigits r := fun hmem => h0 ((List.dropWhile_suffix _).subset hmem)
  obtain ⟨htime, hinteger⟩ := unitLexeme_type (r := r) (denoted 0 (digits r)) (digits r).length h
  simp only [numberLexeme, digits_append, afterDigits_append, pastNul_append, pastNul_of_not_mem _ hafter]
  refine ⟨not_final_of_type htime TokenType.noConfusion TokenType.noConfusion, fun heq => ?_⟩
  rw [heq, htime] at hinteger
  cases hinteger

theorem numericLexeme_loses (h0 : 0 ∉ c :: q) (h : CutNumeric (c :: q)) :
    Loses (numericLexeme (c :: q)) (numericLexeme (c :: q ++ [newline])) := by
  have htail : (c :: q ++ [newline]).tail = q ++ [newline] := rfl
  rw [numericLexeme, numericLexeme, htail, List.tail_cons, groups_append]
  obtain ⟨haddress, hnumber⟩ := h
  rw [List.tail_cons] at haddress hnumber
  cases hq : groups 3 q with
  | none => exact numberLexeme_loses h0 (hnumber hq)
  | some p => exact addressLexeme_loses (haddress p hq)

/-- A token that is cut short is another one with a newline behind the text. -/
theorem lexeme_loses (h0 : 0 ∉ r) (h : CutShort r) : Loses (lexeme r) (lexeme (r ++ [newline])) := by
  cases r with
  | nil => exact h.elim
  | cons c q =>
    simp only [CutShort] at h
    rw [List.cons_append]
    split_ifs at h with hdigit hword
    · rw [lexeme_of_value (.inl hdigit), lexeme_of_value (.inl hdigit), if_pos hdigit, if_pos hdigit]
      exact numericLexeme_loses h0 h
    · have hvalue : isdigit c ∨ isalnum c ∨ c = ch '/' ∨ c = ch '*' := hword.elim (fun h => .inr (.inl h)) fun h =>
        .inr (.inr (.inl h))
      rw [lexeme_of_value hvalue, lexeme_of_value hvalue, if_neg hdigit, if_neg hdigit, if_pos hword, if_pos hword]
      exact wordLexeme_loses h
    · obtain ⟨rfl, hcolon, hport⟩ := h
      obtain ⟨p, rfl⟩ := List.head?_eq_some_iff.mp hcolon
      have hvalue : isdigit (ch '*') ∨ isalnum (ch '*') ∨ ch '*' = ch '/' ∨ ch '*' = ch '*' := .inr (.inr (.inr rfl))
      rw [lexeme_of_value hvalue, lexeme_of_value hvalue, if_neg hdigit, if_neg hdigit, if_neg hword, if_neg hword]
      simp only [wildcardLexeme, List.cons_append, if_true]
      exact portLexeme_loses (r := ch '*' :: ch ':' :: p) hport

/-! ### The tokens that the parser takes -/

/-- The text in front of the lexer, without what is skipped. There is none if the lexer is in front of the text. -/
def inFront (l : Lexer LexFn) : List Octet := if l.pos < 0 then [] else skip isspace false (l.src.drop l.pos.toNat)

/-- Where `parse` takes its tokens. -/
def asked (text : List Octet) : List (Lexer LexFn) :=
  (parse (text.length + 2) parserInit).asked (emit rules) (lexerInit text)

variable {text : List Octet} {i : ℤ}

theorem inFront_tokenAt (text : List Octet) (h0 : 0 ≤ i) :
    inFront (Lexer.tokenAt text .any i) = skip isspace false (text.drop i.toNat) := if_neg (not_lt.mpr h0)

theorem zero_not_mem_skip (htext : 0 ∉ text) (i : ℤ) : 0 ∉ skip isspace false (text.drop i.toNat) := fun hmem =>
  htext (List.drop_subset _ _ ((skip_suffix _ _ _).subset hmem))

/-- A token that is not cut short, with a newline behind the text. -/
theorem peek_append (htext : 0 ∉ text) (hi : i ≤ text.length)
    (h : ¬CutShort (inFront (Lexer.tokenAt text LexFn.any i))) :
    (lexemes.peek (text ++ [newline]) i).1 = (lexemes.peek text i).1 ∧
      (¬Final (lexemes.peek text i).1 → (lexemes.peek (text ++ [newline]) i).2 = (lexemes.peek text i).2) := by
  by_cases h0 : 0 ≤ i
  · rw [inFront_tokenAt text h0] at h
    have hmem := zero_not_mem_skip htext i
    rw [peek_eq h0, peek_eq h0, drop_append_newline hi]
    by_cases hr : skip isspace false (text.drop i.toNat) = []
    · obtain ⟨b, hb⟩ := exists_skip_append hr [newline]
      have hend : skip isspace b [newline] = [] := by cases b <;> decide
      rw [hb, hend, hr]
      exact ⟨rfl, fun hfinal => absurd (.inl rfl) hfinal⟩
    · rw [skip_append hr, lexeme_append hr hmem h]
      refine ⟨rfl, fun _ => ?_⟩
      simp only [List.length_append, List.length_singleton, Nat.cast_add]
      omega
  · rw [Lexemes.peek, Lexemes.peek, if_pos (not_le.mp h0), if_pos (not_le.mp h0)]
    exact ⟨rfl, fun _ => rfl⟩

/-- Where the loop of `parse` has ended, it takes no more tokens with another round. -/
theorem parse_asked {n : ℕ} {p : Parser} {l m : Lexer LexFn} {x : ℤ × Parser}
    (h : (parse n p).run (emit rules) l = some (some x, m)) :
    (parse (n + 1) p).asked (emit rules) l = (parse n p).asked (emit rules) l := by
  induction n generalizing p l with
  | zero => cases h
  | succ n ih =>
    cases hf : p.f with
    | none => rw [parse_none hf, parse_none hf]
    | some f =>
      rw [parse_some hf, Consumer.run_bind] at h
      obtain ⟨⟨y, l'⟩, hrun, hrest⟩ := Option.bind_eq_some_iff.mp h
      rw [parse_some hf, parse_some hf, Consumer.asked_bind hrun, Consumer.asked_bind hrun]
      dsimp only at hrest
      split_ifs at hrest ⊢
      · rw [ih hrest]
      · rfl

/-- A token that is cut short, with a newline behind the text. -/
theorem peek_loses (htext : 0 ∉ text) (hi : i ≤ text.length) (h : CutShort (inFront (Lexer.tokenAt text .any i))) :
    ¬Final (lexemes.peek text i).1 ∧ lexemes.peek (text ++ [newline]) i ≠ lexemes.peek text i := by
  by_cases h0 : 0 ≤ i
  · rw [inFront_tokenAt text h0] at h
    have hr : skip isspace false (text.drop i.toNat) ≠ [] := fun hnil => by
      rw [hnil] at h
      exact h
    obtain ⟨hfinal, hne⟩ := lexeme_loses (zero_not_mem_skip htext i) h
    rw [peek_eq h0, peek_eq h0, drop_append_newline hi, skip_append hr]
    refine ⟨hfinal, fun heq => hne ?_⟩
    obtain ⟨htoken, hpos⟩ := Prod.mk.inj heq
    refine Prod.ext htoken ?_
    simp only [List.length_append, List.length_singleton, Nat.cast_add] at hpos
    omega
  · have hnil : inFront (Lexer.tokenAt text .any i) = [] := if_pos (not_le.mp h0)
    rw [hnil] at h
    exact h.elim

theorem peek_le (hi : i ≤ text.length) : (lexemes.peek text i).2 ≤ text.length := by
  by_cases h0 : 0 ≤ i
  · exact (peek_fits h0 hi).1
  · rw [Lexemes.peek, if_pos (not_le.mp h0)]
    exact hi

/-- With the same tokens `parse` does the same. -/
theorem parseText_append (htext : 0 ∉ text) (h : ∀ l ∈ asked text, ¬CutShort (inFront l)) :
    parseText (text ++ [newline]) = parseText text := by
  obtain ⟨x, hx⟩ := exists_run text
  obtain ⟨l, hrun⟩ := hx 0
  obtain ⟨l', hrun'⟩ := hx 1
  have hends := parse_ends (text.length + 2 + 1) parserInit
  have hinit : ∀ s, lexerInit s = Lexer.tokenAt s rules.any 0 := fun s => rfl
  have hstep : ∀ l ∈ (parse (text.length + 2 + 1) parserInit).asked (emit rules) (lexerInit text), ∀ i : ℤ,
      l = Lexer.tokenAt text rules.any i ∧ i ≤ text.length →
        ∃ m, emit rules l = some ((lexemes.peek (text ++ [newline]) i).1, m) ∧
          (¬Final (lexemes.peek (text ++ [newline]) i).1 → m = Lexer.tokenAt text rules.any
            (lexemes.peek (text ++ [newline]) i).2 ∧ (lexemes.peek (text ++ [newline]) i).2 ≤ text.length) := by
    rintro l hl i ⟨rfl, hi⟩
    rw [parse_asked hrun] at hl
    obtain ⟨htoken, hgoes⟩ := peek_append htext hi (h _ hl)
    obtain ⟨m, hemit, hm⟩ := lexemes.emit_peek text i
    rw [htoken]
    refine ⟨m, hemit, fun hfinal => ?_⟩
    rw [hgoes hfinal]
    exact ⟨hm hfinal, peek_le hi⟩
  obtain ⟨r, hr, -⟩ := hends.run_eq_of_asked ⟨hinit text, Int.natCast_nonneg _⟩ hstep
  obtain ⟨m, hnewline, -⟩ := lexemes.run_emit hends (text ++ [newline]) 0
  have hlen : (text ++ [newline]).length + 2 = text.length + 2 + 1 := by rw [List.length_append]; rfl
  rw [hrun'] at hr
  obtain ⟨heval, -⟩ := Prod.mk.inj (Option.some.inj hr)
  rw [parseText, parseText, hlen, hinit, hnewline, ← heval, hrun]
  rfl

/-- The same lexer, with a newline behind the text. -/
def withNewline (l : Lexer LexFn) : Lexer LexFn := { l with src := l.src ++ [newline] }

/-- Where `parse` takes a token, the lexer delivers the same with a newline behind the text: no octet of a token is
dropped because the text ends there. -/
def LexesAlike (text : List Octet) : Prop :=
  ∀ l ∈ asked text, ∀ t m, emit rules l = some (t, m) → ¬Final t →
    emit rules (withNewline l) = some (t, withNewline m)

/-- Where `parse` takes a token, the lexer is before a token. -/
theorem exists_tokenAt {l : Lexer LexFn} (h : l ∈ asked text) :
    ∃ i : ℤ, l = Lexer.tokenAt text .any i ∧ i ≤ text.length := by
  refine Consumer.Ends.asked_inv (I := fun l => ∃ i : ℤ, l = Lexer.tokenAt text .any i ∧ i ≤ text.length) ?_
    (parse_ends _ _) ⟨0, rfl, Int.natCast_nonneg _⟩ l h
  rintro _ t l' ⟨i, rfl, hi⟩ hemit hfinal
  obtain ⟨m, hpeek, hm⟩ := lexemes.emit_peek text i
  obtain ⟨rfl, rfl⟩ := Prod.mk.inj (Option.some.inj (hemit.symm.trans hpeek))
  exact ⟨_, hm hfinal, peek_le hi⟩

theorem lexesAlike_iff (htext : 0 ∉ text) :
    LexesAlike text ↔ ∀ l ∈ asked text, ¬CutShort (inFront l) := by
  refine forall₂_congr fun l hl => ?_
  obtain ⟨i, rfl, hi⟩ := exists_tokenAt hl
  obtain ⟨m, hemit, hm⟩ := lexemes.emit_peek text i
  obtain ⟨m', hemit', hm'⟩ := lexemes.emit_peek (text ++ [newline]) i
  constructor
  · intro h hcut
    obtain ⟨hfinal, hne⟩ := peek_loses htext hi hcut
    have hgoes := hm hfinal
    subst hgoes
    have halike := Option.some.inj (hemit'.symm.trans (h _ _ hemit hfinal))
    obtain ⟨htoken, rfl⟩ := Prod.mk.inj halike
    rw [htoken] at hm'
    have hpos := congrArg Lexer.pos (hm' hfinal)
    exact hne (Prod.ext htoken hpos.symm)
  · rintro hcut t l' heq hfinal
    obtain ⟨rfl, rfl⟩ := Prod.mk.inj (Option.some.inj (heq.symm.trans hemit))
    obtain ⟨htoken, hgoes⟩ := peek_append htext hi hcut
    rw [htoken] at hm' hemit'
    rw [hm hfinal]
    refine hemit'.trans ?_
    rw [hm' hfinal, hgoes hfinal]
    rfl

/-- If no token that `parse` takes is cut short, the configuration is the same with a newline behind the text. -/
theorem pgrConfigure_append (htext : 0 ∉ text) (h : ∀ l ∈ asked text, ¬CutShort (inFront l)) (c : Context)
    (reload : Bool) : pgrConfigure c (text ++ [newline]) reload = pgrConfigure c text reload := by
  rw [pgrConfigure, pgrConfigure, parseText_append htext h]

end PgRouter.Config
