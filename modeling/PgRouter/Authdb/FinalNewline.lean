import PgRouter.Authdb.Progress
import PgRouter.Text.Newline
import PgRouter.Text.Rejection

/-!
# The end of an authentication database

A newline at the end of the database should carry no meaning. But a word with which the text ends loses its
last octet, which is then taken for another, empty word. It matters where the word is a hash (`CutsHash`):
what is loaded is the same with a newline behind the text if and only if `parse` takes no such hash
(`pgrAuthdb_append_iff`).
-/

namespace PgRouter.Authdb

open Foundation Wire Text

/-! ### Words that are cut short -/

/-- The text is a word. -/
def CutWord (r : List Octet) : Prop :=
  r ≠ [] ∧ (∀ c ∈ r, inWord c) ∧ r.head? ≠ some 0x27 ∧ r.head? ≠ some 0x22

instance (r : List Octet) : Decidable (CutWord r) := inferInstanceAs (Decidable (_ ∧ _))

/-- The text in front of the lexer, without what is skipped. -/
def inFront (l : Lexer LexFn) : List Octet := skip blank false (l.src.drop l.pos.toNat)

/-- The token is a word or a quoted string. -/
def IsString (t : Token) : Prop := t.type = .word ∨ t.type = .qstring

/-- In one of its rounds from here on `parse` takes a hash that is a word with which the text ends. -/
inductive CutsHash : Parser → Lexer LexFn → Prop where
  /-- It is in this round, behind a user name and `md5`. -/
  | here {p : Parser} {l l₁ l₂ : Lexer LexFn} {t₁ t₂ : Token} :
      p.f = true → emit rules l = some (t₁, l₁) → IsString t₁ →
      emit rules l₁ = some (t₂, l₂) → t₂.type = .word → asString t₂ = MD5 → CutWord (inFront l₂) → CutsHash p l
  /-- It is in a later one. -/
  | later {p p' : Parser} {l l' : Lexer LexFn} : p.f = true → (parseTop p).run (emit rules) l = some ((0, p'), l') →
      CutsHash p' l' → CutsHash p l

variable {src r q : List Octet} {c : Octet} {i : ℤ} {p : Parser}

/-! ### Tokens -/

theorem inWord_newline : inWord newline = false := by decide

theorem CutWord.inWord_tail (h : CutWord (c :: q)) : ∀ d ∈ q, inWord d = true := fun d hd =>
  h.2.1 d (List.mem_cons_of_mem c hd)

/-- A word with which the text ends begins no other token. -/
theorem CutWord.head (h : CutWord (c :: q)) : ¬c = 0 ∧ ¬c = newline ∧ ¬(c = 0x27 ∨ c = 0x22) := by
  obtain ⟨-, hword, hsingle, hdouble⟩ := h
  have hc := hword c List.mem_cons_self
  refine ⟨?_, ?_, ?_⟩
  · rintro rfl
    cases hc
  · rintro rfl
    cases hc
  · rintro (rfl | rfl)
    · exact hsingle rfl
    · exact hdouble rfl

/-- It loses its last octet. -/
theorem lexeme_of_cutWord (h : CutWord r) :
    lexeme r = (({ type := .word, value := r.dropLast } : Token), (r.length - 1 : ℤ)) := by
  cases r with
  | nil => exact absurd rfl h.1
  | cons c q =>
    obtain ⟨h0, hnewline, hquote⟩ := h.head
    have htake : q.takeWhile inWord = q := List.takeWhile_eq_self_iff.mpr h.inWord_tail
    have hdrop : q.dropWhile inWord = [] := List.dropWhile_eq_nil_iff.mpr h.inWord_tail
    have hlen : wordLength q = q.length := by rw [wordLength, htake, hdrop, cut_nil]; omega
    simp only [lexeme, if_neg h0, if_neg hnewline, if_neg hquote, hlen, Int.toNat_natCast, List.length_cons,
      List.dropLast_eq_take, Nat.add_sub_cancel, Nat.cast_add, Nat.cast_one, add_sub_cancel_right]

/-- Not so with a newline behind it. -/
theorem lexeme_append_of_cutWord (h : CutWord r) :
    lexeme (r ++ [newline]) = (({ type := .word, value := r } : Token), (r.length : ℤ)) := by
  cases r with
  | nil => exact absurd rfl h.1
  | cons c q =>
    obtain ⟨h0, hnewline, hquote⟩ := h.head
    have htake : q.takeWhile inWord = q := List.takeWhile_eq_self_iff.mpr h.inWord_tail
    have hlen : wordLength (q ++ [newline]) = (c :: q).length := by
      rw [wordLength, takeWhile_append_newline inWord_newline, dropWhile_append_newline inWord_newline,
        cut_append_newline, htake, List.length_cons, Nat.add_comm]
    simp only [lexeme, List.cons_append, if_neg h0, if_neg hnewline, if_neg hquote, hlen, Int.toNat_natCast]
    rw [← List.cons_append, List.take_left]

theorem inWord_of_not_blank (h : ¬blank c) (h0 : ¬c = 0) (hnewline : ¬c = newline) : inWord c = true := by
  have hspace : isspace c = false := by simpa [blank, hnewline] using h
  simp [inWord, h0, hspace]

theorem CutWord.dropLast_ne (h : CutWord r) : r.dropLast ≠ r := fun heq => by
  have hpos := List.length_pos_of_ne_nil h.1
  have hlen := congrArg List.length heq
  rw [List.length_dropLast] at hlen
  omega

theorem asString_word {v : List Octet} (h : ∀ c ∈ v, inWord c = true) : asString { type := .word, value := v } = v := by
  refine List.takeWhile_eq_self_iff.mpr fun c hc => ?_
  have hword := h c hc
  simp only [inWord, Bool.and_eq_true] at hword
  exact hword.1

theorem CutWord.asString_dropLast (h : CutWord r) : asString { type := .word, value := r.dropLast } = r.dropLast :=
  asString_word fun c hc => h.2.1 c (List.dropLast_subset r hc)

/-- Other tokens are the same with a newline behind the text. -/
theorem lexeme_append (hr : ∀ c ∈ r.head?, ¬blank c) (hne : r ≠ []) (h : ¬CutWord r) :
    lexeme (r ++ [newline]) = lexeme r := by
  cases r with
  | nil => exact absurd rfl hne
  | cons c q =>
    simp only [lexeme, List.cons_append]
    split_ifs with h0 hnewline hquote
    · rfl
    · rfl
    · exact quoted_append_newline _ _ hnewline q
    · have hc := inWord_of_not_blank (hr c rfl) h0 hnewline
      have hend : q.dropWhile inWord ≠ [] := fun hnil => by
        refine h ⟨List.cons_ne_nil c q, ?_, ?_, ?_⟩
        · exact List.forall_mem_cons.mpr ⟨hc, List.dropWhile_eq_nil_iff.mp hnil⟩
        · exact fun heq => hquote (.inl (Option.some.inj heq))
        · exact fun heq => hquote (.inr (Option.some.inj heq))
      have hlen : wordLength (q ++ [newline]) = wordLength q := by
        rw [wordLength, takeWhile_append_newline inWord_newline, dropWhile_append_newline inWord_newline,
          cut_append_newline, wordLength, cut_of_ne hend]
      have hle : (wordLength q).toNat ≤ (c :: q).length := by
        have hword := (wordLength_le q).2
        rw [List.length_cons]
        omega
      rw [hlen, ← List.cons_append, List.take_append_of_le_length hle]

/-! ### The token at a position -/

/-- The text in front at the position `i`. -/
abbrev front (src : List Octet) (i : ℤ) : List Octet := inFront (Lexer.tokenAt src LexFn.any i)

/-- A word with which the text ends, at a position. -/
theorem peek_of_cutWord (h0 : 0 ≤ i) (h : CutWord (front src i)) :
    lexemes.peek src i = (({ type := .word, value := (front src i).dropLast } : Token), (src.length - 1 : ℤ)) := by
  have hfront : front src i = skip blank false (src.drop i.toNat) := rfl
  rw [peek_eq h0, ← hfront, lexeme_of_cutWord h]
  exact Prod.ext rfl (by dsimp only; omega)

/-- With a newline behind it, it is whole. -/
theorem peek_append_of_cutWord (h0 : 0 ≤ i) (hi : i ≤ src.length) (h : CutWord (front src i)) :
    lexemes.peek (src ++ [newline]) i = (({ type := .word, value := front src i } : Token), (src.length : ℤ)) := by
  have hfront : front src i = skip blank false (src.drop i.toNat) := rfl
  rw [peek_eq h0, drop_append_newline hi, skip_append (hfront ▸ h.1) [newline], ← hfront, lexeme_append_of_cutWord h]
  refine Prod.ext rfl ?_
  simp only [List.length_append, Nat.cast_add]
  omega

/-- How the token at a position changes with a newline behind the text. -/
theorem peek_append (h0 : 0 ≤ i) (hi : i ≤ src.length) :
    (front src i = [] ∧ (lexemes.peek src i).1.type = .eos ∧
        ((lexemes.peek (src ++ [newline]) i).1.type = .eos ∨
          lexemes.peek (src ++ [newline]) i = (({ type := .newline } : Token), (src.length + 1 : ℤ)))) ∨
      (CutWord (front src i) ∧
        lexemes.peek src i = (({ type := .word, value := (front src i).dropLast } : Token), (src.length - 1 : ℤ)) ∧
        lexemes.peek (src ++ [newline]) i = (({ type := .word, value := front src i } : Token), (src.length : ℤ))) ∨
      (¬CutWord (front src i) ∧ lexemes.peek (src ++ [newline]) i = lexemes.peek src i) := by
  have hfront : front src i = skip blank false (src.drop i.toNat) := rfl
  by_cases hcut : CutWord (front src i)
  · exact .inr (.inl ⟨hcut, peek_of_cutWord h0 hcut, peek_append_of_cutWord h0 hi hcut⟩)
  rw [peek_eq h0, peek_eq h0, drop_append_newline hi, ← hfront]
  by_cases hr : front src i = []
  · refine .inl ⟨hr, by rw [hr]; rfl, ?_⟩
    obtain ⟨b, hb⟩ := exists_skip_append (hfront.symm.trans hr) [newline]
    rw [hb]
    cases b with
    | true => exact .inl rfl
    | false =>
      refine .inr (Prod.ext rfl ?_)
      simp only [List.length_append, List.length_singleton, Nat.cast_add]
      change _ - (1 : ℤ) + 1 = _
      omega
  · have hhead : ∀ c ∈ (front src i).head?, ¬blank c := fun c hc => by
      obtain ⟨q, hq⟩ := List.head?_eq_some_iff.mp hc
      exact (skip_head (hfront.symm.trans hq)).1
    refine .inr (.inr ⟨hcut, ?_⟩)
    rw [skip_append (hfront ▸ hr) [newline], ← hfront, lexeme_append hhead hr hcut]
    refine Prod.ext rfl ?_
    simp only [List.length_append, Nat.cast_add]
    omega

/-- Where at most one octet is left, a token that is a string is an empty word, and the lexer does not advance. -/
theorem peek_tail (h0 : 0 ≤ i) (hi : i ≤ src.length) (hlen : src.length ≤ i + 1) (h : IsString (lexemes.peek src i).1) :
    CutWord (front src i) ∧ lexemes.peek src i = (({ type := .word } : Token), i) := by
  have hfront : front src i = skip blank false (src.drop i.toNat) := rfl
  have hle := (skip_suffix blank false (src.drop i.toNat)).length_le
  rw [← hfront, List.length_drop] at hle
  have hskip := @skip_head blank false (src.drop i.toNat)
  rw [peek_eq h0, ← hfront] at h ⊢
  rw [← hfront] at hskip
  match hr : front src i with
  | [] =>
    rw [hr] at h
    rcases h with h | h <;> cases h
  | c :: d :: q =>
    rw [hr, List.length_cons, List.length_cons] at hle
    omega
  | [c] =>
    have hcut : CutWord [c] := by
      rw [hr] at h
      simp only [lexeme] at h
      split_ifs at h with h0 hnewline hquote
      · rcases h with h | h <;> cases h
      · rcases h with h | h <;> cases h
      · rw [quoted, afterQuote] at h
        rcases h with h | h <;> cases h
      · refine ⟨List.cons_ne_nil c [], ?_, ?_, ?_⟩
        · exact List.forall_mem_singleton.mpr (inWord_of_not_blank (hskip hr).1 h0 hnewline)
        · exact fun heq => hquote (.inl (Option.some.inj heq))
        · exact fun heq => hquote (.inr (Option.some.inj heq))
    rw [hr, List.length_singleton] at hle
    refine ⟨hcut, ?_⟩
    rw [lexeme_of_cutWord hcut]
    refine Prod.ext rfl ?_
    dsimp only
    rw [List.length_singleton]
    omega

/-- Behind a user name, the loop is over with this token. -/
def Breaks (t : Token) : Prop := t.type ≠ .qstring ∧ ¬(t.type = .word ∧ asString t = MD5)

theorem breaks_of_end {t : Token} (h : t.type = .eos ∨ t.type = .newline) : Breaks t := by
  rcases h with h | h <;> simp [Breaks, h]

theorem breaks_of_word {v : List Octet} (h : asString { type := .word, value := v } ≠ MD5) :
    Breaks { type := .word, value := v } := ⟨TokenType.noConfusion, fun hmd5 => h hmd5.2⟩

theorem not_string_of_end {t : Token} (h : t.type = .eos ∨ t.type = .newline) : ¬IsString t := by
  rcases h with h | h <;> simp [IsString, h]

/-- The newline behind the text. -/
theorem peek_newline (src : List Octet) : ¬IsString (lexemes.peek (src ++ [newline]) src.length).1 := by
  rw [peek_eq (Int.natCast_nonneg _), Int.toNat_natCast, List.drop_left]
  exact not_string_of_end (.inr rfl)

/-- So it is not `md5`, and no quoted string. -/
theorem peek_tail_breaks (h0 : 0 ≤ i) (hi : i ≤ src.length) (hlen : src.length ≤ i + 1) :
    Breaks (lexemes.peek src i).1 := by
  have hempty : IsString (lexemes.peek src i).1 → (lexemes.peek src i).1 = { type := .word } := fun hstring => by
    rw [(peek_tail h0 hi hlen hstring).2]
  refine ⟨fun hq => ?_, fun ⟨hword, hmd5⟩ => ?_⟩
  · rw [hempty (.inr hq)] at hq
    cases hq
  · rw [hempty (.inl hword)] at hmd5
    exact absurd hmd5 (by decide)

/-! ### One round -/

theorem afterType_string (p : Parser) (user : CString) {t : Token} (h : IsString t) :
    afterType p user t = (0, p.newEntry user (asString t)) := by
  rcases h with h | h <;> rw [afterType, h]

theorem afterType_over (p : Parser) (user : CString) {t : Token} (h : ¬IsString t) :
    afterType p user t = (1, p.stop) := by
  unfold afterType
  split
  · exact absurd (.inl ‹_›) h
  · exact absurd (.inr ‹_›) h
  · rfl

theorem afterUser_md5 (p : Parser) (user : CString) {t : Token} (ht : t.type = .word) (h : asString t = MD5) :
    afterUser p user t = .read fun t3 => .done (afterType p user t3) := by
  unfold afterUser
  simp only [ht, if_pos h]

theorem afterUser_over (p : Parser) (user : CString) {t : Token} (h : Breaks t) :
    ∃ rc, afterUser p user t = .done (rc, p.stop) := by
  unfold afterUser
  cases htype : t.type with
  | word => exact ⟨1, if_neg fun hmd5 => h.2 ⟨htype, hmd5⟩⟩
  | qstring => exact absurd htype h.1
  | eos => exact ⟨0, rfl⟩
  | error => exact ⟨1, rfl⟩
  | newline => exact ⟨1, rfl⟩

/-- With this round the loop is over, and it adds no entry. -/
def Over (src : List Octet) (p : Parser) (i : ℤ) : Prop :=
  ∃ rc j, (parseTop p).eval (lexemes.peek src) i = ((rc, p.stop), j)

/-- What a round does, behind a user name. -/
theorem parseTop_string (p : Parser) (h : IsString (lexemes.peek src i).1) :
    (parseTop p).eval (lexemes.peek src) i =
      (afterUser p (asString (lexemes.peek src i).1) (lexemes.peek src (lexemes.peek src i).2).1).eval
        (lexemes.peek src) (lexemes.peek src (lexemes.peek src i).2).2 := by
  rw [parseTop_eq, Consumer.eval_read]
  rcases h with h | h <;> simp only [h, Consumer.eval_read]

theorem over_of_end (p : Parser) (h : (lexemes.peek src i).1.type = .eos ∨ (lexemes.peek src i).1.type = .error) :
    Over src p i := by
  rw [Over, parseTop_eq, Consumer.eval_read]
  rcases h with h | h <;> simp only [h, Consumer.eval_done]
  · exact ⟨_, _, rfl⟩
  · exact ⟨_, _, rfl⟩

theorem over_of_user (p : Parser) (h : IsString (lexemes.peek src i).1)
    (hbreaks : Breaks (lexemes.peek src (lexemes.peek src i).2).1) : Over src p i := by
  obtain ⟨rc, hrc⟩ := afterUser_over p (asString (lexemes.peek src i).1) hbreaks
  rw [Over, parseTop_string p h, hrc]
  exact ⟨_, _, rfl⟩

theorem over_of_md5 (p : Parser) (h : IsString (lexemes.peek src i).1)
    (hword : (lexemes.peek src (lexemes.peek src i).2).1.type = .word)
    (hmd5 : asString (lexemes.peek src (lexemes.peek src i).2).1 = MD5)
    (hhash : ¬IsString (lexemes.peek src (lexemes.peek src (lexemes.peek src i).2).2).1) : Over src p i := by
  rw [Over, parseTop_string p h, afterUser_md5 p _ hword hmd5, Consumer.eval_read, afterType_over p _ hhash]
  exact ⟨_, _, rfl⟩

/-- The entries that are loaded, from a position on. -/
def loaded (src : List Octet) (p : Parser) (i : ℤ) : Option (List (CString × CString)) :=
  ((parse (src.length + 2) p).eval (lexemes.peek src) i).1.map fun x => x.2.entries

theorem loaded_stop (hf : p.f = false) : loaded src p i = some p.entries := by
  rw [loaded, parse_false hf]
  rfl

/-- What is loaded after a round. -/
theorem loaded_round (hf : p.f = true) (h0 : 0 ≤ i) (hi : i ≤ src.length) {rc : ℤ} {p' : Parser} {j : ℤ}
    (h : (parseTop p).eval (lexemes.peek src) i = ((rc, p'), j)) :
    loaded src p i = if rc = 0 then loaded src p' j else some p'.entries := by
  have hadvances := @parseTop_advances src i p h0 hi
  rw [h] at hadvances
  dsimp only at hadvances
  rw [loaded, parse_true hf, Consumer.eval_bind, h]
  dsimp only
  split_ifs with hrc
  · obtain ⟨x, hx⟩ := parse_eval src (src.length + 1) p' j (by omega) fun hnext => by
      obtain ⟨hlt, hle⟩ := hadvances hrc hnext
      exact ⟨by omega, hle, by omega⟩
    have hzero := hx 0
    have hone := hx 1
    rw [add_zero] at hzero
    rw [loaded, hzero, hone]
  · rfl

theorem loaded_over (h0 : 0 ≤ i) (hi : i ≤ src.length) (h : Over src p i) : loaded src p i = some p.entries := by
  cases hf : p.f with
  | false => exact loaded_stop hf
  | true =>
    obtain ⟨rc, j, heval⟩ := h
    rw [loaded_round hf h0 hi heval, loaded_stop rfl, ite_self]
    rfl

/-- The end of a line is skipped. -/
theorem loaded_newline (hf : p.f = true) (h0 : 0 ≤ i) (hi : i ≤ src.length)
    (h : (lexemes.peek src i).1.type = .newline) : loaded src p i = loaded src p (lexemes.peek src i).2 := by
  have heval : (parseTop p).eval (lexemes.peek src) i = ((0, p), (lexemes.peek src i).2) := by
    rw [parseTop_eq, Consumer.eval_read]
    simp only [h, Consumer.eval_done]
  rw [loaded_round hf h0 hi heval, if_pos rfl]

theorem loaded_end (p : Parser) (src : List Octet) : loaded src p src.length = some p.entries := by
  refine loaded_over (Int.natCast_nonneg _) le_rfl (over_of_end p (.inl ?_))
  rw [peek_eq (Int.natCast_nonneg _), Int.toNat_natCast, List.drop_length, skip]
  rfl

/-- Where at most one octet is left, no entry is loaded. -/
theorem loaded_tail (h0 : 0 ≤ i) (hi : i ≤ src.length) (hlen : src.length ≤ i + 1) :
    loaded src p i = some p.entries := by
  cases hf : p.f with
  | false => exact loaded_stop hf
  | true =>
    cases ht : (lexemes.peek src i).1.type with
    | eos => exact loaded_over h0 hi (over_of_end p (.inl ht))
    | error => exact loaded_over h0 hi (over_of_end p (.inr ht))
    | newline =>
      have hlt : i < (lexemes.peek src i).2 := by
        refine peek_lt h0 hi ?_ fun hword => ?_
        · rintro (h | h) <;> rw [ht] at h <;> cases h
        · rw [ht] at hword
          cases hword
      have hend : (lexemes.peek src i).2 = src.length := by
        have hle := (peek_le h0 hi).2
        omega
      rw [loaded_newline hf h0 hi ht, hend, loaded_end]
    | word | qstring =>
      have hstring : IsString (lexemes.peek src i).1 := by
        rw [IsString, ht]
        decide
      obtain ⟨-, hpeek⟩ := peek_tail h0 hi hlen hstring
      have hnext : (lexemes.peek src i).2 = i := by rw [hpeek]
      have hbreaks := peek_tail_breaks h0 hi hlen
      exact loaded_over h0 hi (over_of_user p hstring (by rwa [hnext]))

/-! ### Two runs -/

/-- In the round at this position the hash is cut short. -/
def CutsHere (src : List Octet) (i : ℤ) : Prop :=
  IsString (lexemes.peek src i).1 ∧ (lexemes.peek src (lexemes.peek src i).2).1.type = .word ∧
    asString (lexemes.peek src (lexemes.peek src i).2).1 = MD5 ∧
      CutWord (front src (lexemes.peek src (lexemes.peek src i).2).2)

theorem CutsHash.f {l : Lexer LexFn} (h : CutsHash p l) : p.f = true := by
  cases h <;> assumption

theorem IsString.not_final {t : Token} (h : IsString t) : ¬Final t := by
  rintro (hend | hend) <;> rcases h with h | h <;> rw [hend] at h <;> cases h

/-- `emit` before a token that is a string. -/
theorem emit_string (src : List Octet) (i : ℤ) (h : IsString (lexemes.peek src i).1) :
    emit rules (Lexer.tokenAt src .any i) =
      some ((lexemes.peek src i).1, Lexer.tokenAt src .any (lexemes.peek src i).2) := by
  obtain ⟨m, hemit, hm⟩ := lexemes.emit_peek src i
  rw [← show m = Lexer.tokenAt src .any (lexemes.peek src i).2 from hm h.not_final]
  exact hemit

theorem emit_string_inj {t : Token} {l : Lexer LexFn} (h : emit rules (Lexer.tokenAt src .any i) = some (t, l))
    (ht : IsString t) : t = (lexemes.peek src i).1 ∧ l = Lexer.tokenAt src .any (lexemes.peek src i).2 := by
  obtain ⟨m, hemit, hm⟩ := lexemes.emit_peek src i
  obtain ⟨rfl, rfl⟩ := Prod.mk.inj (Option.some.inj (h.symm.trans hemit))
  exact ⟨rfl, hm ht.not_final⟩

/-- The same at the positions of tokens. -/
theorem cutsHash_iff (hf : p.f = true) :
    CutsHash p (Lexer.tokenAt src .any i) ↔ CutsHere src i ∨
      ∃ p' j, (parseTop p).eval (lexemes.peek src) i = ((0, p'), j) ∧ p'.f = true ∧
        CutsHash p' (Lexer.tokenAt src .any j) := by
  obtain ⟨l, hrun, -, hl⟩ := lexemes.run_emit (parseTop_ends p) src i
  constructor
  · intro h
    cases h with
    | here _ h₁ hstring h₂ hword hmd5 hcut =>
      obtain ⟨rfl, rfl⟩ := emit_string_inj h₁ hstring
      obtain ⟨rfl, rfl⟩ := emit_string_inj h₂ (.inl hword)
      exact .inl ⟨hstring, hword, hmd5, hcut⟩
    | @later _ p' _ l' _ hround hcuts =>
      obtain ⟨heval, rfl⟩ := Prod.mk.inj (Option.some.inj (hround.symm.trans hrun))
      have hgo : ¬Stop ((parseTop p).eval (lexemes.peek src) i).1 := by
        rw [← heval]
        rintro (hrc | hstop)
        · exact hrc rfl
        · rw [hcuts.f] at hstop
          cases hstop
      have hnext := hl hgo
      subst hnext
      exact .inr ⟨p', _, Prod.ext heval.symm rfl, hcuts.f, hcuts⟩
  · rintro (⟨hstring, hword, hmd5, hcut⟩ | ⟨p', j, heval, hf', hcuts⟩)
    · exact .here hf (emit_string src i hstring) hstring (emit_string src _ (.inl hword)) hword hmd5 hcut
    · rw [heval] at hrun hl
      have hgo : ¬Stop ((0 : ℤ), p') := by
        rintro (hrc | hstop)
        · exact hrc rfl
        · rw [hf'] at hstop
          cases hstop
      have hnext := hl hgo
      subst hnext
      exact .later hf hrun hcuts

/-- With a round in which the hash is cut short an entry is added. -/
theorem eval_of_cutsHere (p : Parser) (h0 : 0 ≤ i) (hi : i ≤ src.length) (h : CutsHere src i) :
    (parseTop p).eval (lexemes.peek src) i =
      ((0, p.newEntry (asString (lexemes.peek src i).1)
        (front src (lexemes.peek src (lexemes.peek src i).2).2).dropLast), (src.length - 1 : ℤ)) := by
  obtain ⟨hstring, hword, hmd5, hcut⟩ := h
  obtain ⟨hge, hle⟩ := peek_le h0 hi
  have hge' := (peek_le (h0.trans hge) hle).1
  rw [parseTop_string p hstring, afterUser_md5 p _ hword hmd5, Consumer.eval_read,
    peek_of_cutWord (h0.trans (hge.trans hge')) hcut, afterType_string p _ (.inl rfl), hcut.asString_dropLast]
  rfl

/-- A round whose first token is the same, and is no string, is the same. -/
theorem eval_append (p : Parser) (hsame : lexemes.peek (src ++ [newline]) i = lexemes.peek src i)
    (h : ¬IsString (lexemes.peek src i).1) :
    (parseTop p).eval (lexemes.peek (src ++ [newline])) i = (parseTop p).eval (lexemes.peek src) i := by
  rw [parseTop_eq, Consumer.eval_read, Consumer.eval_read, hsame]
  cases ht : (lexemes.peek src i).1.type with
  | word => exact absurd (.inl ht) h
  | qstring => exact absurd (.inr ht) h
  | eos | error | newline => rfl

theorem afterUser_done (p : Parser) (user : CString) {t : Token} (h : ¬(t.type = .word ∧ asString t = MD5)) :
    ∃ x, afterUser p user t = .done x := by
  by_cases ht : t.type = .qstring
  · exact ⟨(0, p), by rw [afterUser, ht]⟩
  · obtain ⟨rc, hrc⟩ := afterUser_over p user ⟨ht, h⟩
    exact ⟨_, hrc⟩

/-- What a round does with a newline behind the text. -/
inductive Appended (src : List Octet) (p : Parser) (i : ℤ) : Prop where
  /-- The same. -/
  | same : ¬CutsHere src i →
      (parseTop p).eval (lexemes.peek (src ++ [newline])) i = (parseTop p).eval (lexemes.peek src) i → Appended src p i
  /-- No more entries are added, with the newline or without. -/
  | over : Over src p i → loaded (src ++ [newline]) p i = some p.entries → Appended src p i
  /-- The hash is not cut short with the newline. -/
  | cut : CutsHere src i → loaded (src ++ [newline]) p i ≠ loaded src p i → Appended src p i

section

variable (h0 : 0 ≤ i) (hi : i ≤ src.length) (hf : p.f = true)
  (hsame : lexemes.peek (src ++ [newline]) i = lexemes.peek src i) (hstring : IsString (lexemes.peek src i).1)

include h0 hi hsame hstring in
/-- The text ends behind the user name, or it is over for another reason. -/
theorem appended_of_breaks (h : Breaks (lexemes.peek src (lexemes.peek src i).2).1)
    (h' : Breaks (lexemes.peek (src ++ [newline]) (lexemes.peek src i).2).1) : Appended src p i := by
  have hi' : i ≤ (src ++ [newline]).length := by
    rw [List.length_append]
    omega
  exact .over (over_of_user p hstring h) (loaded_over h0 hi' (over_of_user p (hsame ▸ hstring) (by rwa [hsame])))

include h0 hi hf hsame hstring in
/-- Behind `md5`. -/
theorem appended_of_md5
    (hsame₂ : lexemes.peek (src ++ [newline]) (lexemes.peek src i).2 = lexemes.peek src (lexemes.peek src i).2)
    (hword : (lexemes.peek src (lexemes.peek src i).2).1.type = .word)
    (hmd5 : asString (lexemes.peek src (lexemes.peek src i).2).1 = MD5) : Appended src p i := by
  obtain ⟨hge, hle⟩ := peek_le h0 hi
  obtain ⟨hge', hle'⟩ := peek_le (h0.trans hge) hle
  have h0' := h0.trans (hge.trans hge')
  have hlen : (src ++ [newline]).length = src.length + 1 := List.length_append
  have hi' : i ≤ (src ++ [newline]).length := by omega
  have hstring' : IsString (lexemes.peek (src ++ [newline]) i).1 := hsame ▸ hstring
  have hround : (parseTop p).eval (lexemes.peek (src ++ [newline])) i =
      (afterType p (asString (lexemes.peek src i).1)
        (lexemes.peek (src ++ [newline]) (lexemes.peek src (lexemes.peek src i).2).2).1,
        (lexemes.peek (src ++ [newline]) (lexemes.peek src (lexemes.peek src i).2).2).2) := by
    rw [parseTop_string p hstring', hsame, hsame₂, afterUser_md5 p _ hword hmd5]
    rfl
  rcases peek_append h0' hle' with ⟨-, heos, hend⟩ | ⟨hcut, hhash, hwhole⟩ | ⟨hcut, hsame₃⟩
  · refine .over (over_of_md5 p hstring hword hmd5 (not_string_of_end (.inl heos))) (loaded_over h0 hi' ?_)
    rw [Over, hround, afterType_over p _ (not_string_of_end (hend.imp id fun hend => by rw [hend]))]
    exact ⟨_, _, rfl⟩
  · have hcuts : CutsHere src i := ⟨hstring, hword, hmd5, hcut⟩
    have hend := (peek_le h0' hle').1
    rw [hhash] at hend
    dsimp only at hend
    refine .cut hcuts fun heq => ?_
    rw [hwhole, afterType_string p _ (.inl rfl), asString_word hcut.2.1] at hround
    rw [loaded_round hf h0 hi' hround, loaded_round hf h0 hi (eval_of_cutsHere p h0 hi hcuts), if_pos rfl, if_pos rfl,
      loaded_tail (Int.natCast_nonneg _) (by omega) (by omega), loaded_tail (by omega) (by omega) (by omega)] at heq
    exact hcut.dropLast_ne (congrArg Prod.snd (List.cons.inj (Option.some.inj heq)).1).symm
  · refine .same (fun hcuts => hcut hcuts.2.2.2) ?_
    rw [hround, hsame₃, parseTop_string p hstring, afterUser_md5 p _ hword hmd5]
    rfl

include h0 hi hf hsame hstring in
/-- The second token of an entry is cut short. -/
theorem appended_of_cutWord (hcut : CutWord (front src (lexemes.peek src i).2)) : Appended src p i := by
  obtain ⟨hge, hle⟩ := peek_le h0 hi
  have hlen : (src ++ [newline]).length = src.length + 1 := List.length_append
  have hi' : i ≤ (src ++ [newline]).length := by omega
  have hstring' : IsString (lexemes.peek (src ++ [newline]) i).1 := hsame ▸ hstring
  have hword := peek_of_cutWord (h0.trans hge) hcut
  have hwhole := peek_append_of_cutWord (h0.trans hge) hle hcut
  have hend := (peek_le (h0.trans hge) hle).1
  rw [hword] at hend
  dsimp only at hend
  -- with the newline, what follows is the end of the line
  have hover' : Over (src ++ [newline]) p i := by
    by_cases hmd5 : front src (lexemes.peek src i).2 = MD5
    · refine over_of_md5 p hstring' ?_ ?_ ?_ <;> rw [hsame, hwhole]
      · rw [asString_word hcut.2.1, hmd5]
      · exact peek_newline src
    · refine over_of_user p hstring' ?_
      rw [hsame, hwhole]
      exact breaks_of_word fun heq => hmd5 ((asString_word hcut.2.1).symm.trans heq)
  by_cases hmd5 : (front src (lexemes.peek src i).2).dropLast = MD5
  · by_cases hempty : IsString (lexemes.peek src (src.length - 1)).1
    · have hcuts : CutsHere src i := by
        refine ⟨hstring, ?_, ?_, ?_⟩ <;> rw [hword]
        · rw [hcut.asString_dropLast, hmd5]
        · exact (peek_tail (by omega) (by omega) (by omega) hempty).1
      refine .cut hcuts fun heq => ?_
      rw [loaded_over h0 hi' hover', loaded_round hf h0 hi (eval_of_cutsHere p h0 hi hcuts), if_pos rfl,
        loaded_tail (by omega) (by omega) (by omega)] at heq
      exact List.cons_ne_self _ _ (Option.some.inj heq).symm
    · refine .over (over_of_md5 p hstring ?_ ?_ ?_) (loaded_over h0 hi' hover') <;> rw [hword]
      · rw [hcut.asString_dropLast, hmd5]
      · exact hempty
  · refine .over (over_of_user p hstring ?_) (loaded_over h0 hi' hover')
    rw [hword]
    exact breaks_of_word fun heq => hmd5 (hcut.asString_dropLast.symm.trans heq)

include h0 hi hf hsame hstring in
/-- Behind a user name. -/
theorem appended_of_user : Appended src p i := by
  obtain ⟨hge, hle⟩ := peek_le h0 hi
  rcases peek_append (h0.trans hge) hle with ⟨-, heos, hend⟩ | ⟨hcut, -, -⟩ | ⟨-, hsame₂⟩
  · refine appended_of_breaks h0 hi hsame hstring (breaks_of_end (.inl heos)) (breaks_of_end ?_)
    exact hend.imp id fun hend => by rw [hend]
  · exact appended_of_cutWord h0 hi hf hsame hstring hcut
  · by_cases hmd5 : (lexemes.peek src (lexemes.peek src i).2).1.type = .word ∧
      asString (lexemes.peek src (lexemes.peek src i).2).1 = MD5
    · exact appended_of_md5 h0 hi hf hsame hstring hsame₂ hmd5.1 hmd5.2
    · refine .same (fun hcuts => hmd5 ⟨hcuts.2.1, hcuts.2.2.1⟩) ?_
      obtain ⟨x, hx⟩ := afterUser_done p (asString (lexemes.peek src i).1) hmd5
      rw [parseTop_string p hstring, parseTop_string p (hsame ▸ hstring), hsame, hsame₂, hx]
      rfl

end

/-- What a round does with a newline behind the text. -/
theorem appended (h0 : 0 ≤ i) (hi : i ≤ src.length) (hf : p.f = true) : Appended src p i := by
  have hlen : (src ++ [newline]).length = src.length + 1 := List.length_append
  have hi' : i ≤ (src ++ [newline]).length := by omega
  rcases peek_append h0 hi with ⟨-, heos, hend⟩ | ⟨-, hword, hwhole⟩ | ⟨-, hsame⟩
  · refine .over (over_of_end p (.inl heos)) ?_
    rcases hend with hend | hend
    · exact loaded_over h0 hi' (over_of_end p (.inl hend))
    · have hnext : (lexemes.peek (src ++ [newline]) i).2 = (src ++ [newline]).length := by
        rw [hend, hlen]
        rfl
      rw [loaded_newline hf h0 hi' (by rw [hend]), hnext, loaded_end]
  · -- the user name is cut short, and what follows is no `md5`
    have hge := (peek_le h0 hi).1
    rw [hword] at hge
    dsimp only at hge
    have hbreaks := @peek_tail_breaks src (src.length - 1) (by omega) (by omega) (by omega)
    have hbreaks' := @peek_tail_breaks (src ++ [newline]) src.length (by omega) (by omega) (by omega)
    refine .over (over_of_user p (by rw [hword]; exact .inl rfl) (by rwa [hword])) (loaded_over h0 hi' ?_)
    exact over_of_user p (by rw [hwhole]; exact .inl rfl) (by rwa [hwhole])
  · by_cases hstring : IsString (lexemes.peek src i).1
    · exact appended_of_user h0 hi hf hsame hstring
    · exact .same (fun hcuts => hstring hcuts.1) (eval_append p hsame hstring)

/-- What is loaded is the same with a newline behind the text, if and only if no hash is cut short. -/
theorem loaded_append_iff (h0 : 0 ≤ i) (hi : i ≤ src.length) :
    loaded (src ++ [newline]) p i = loaded src p i ↔ ¬CutsHash p (Lexer.tokenAt src .any i) := by
  have hstopped : ∀ {q : Parser} {l : Lexer LexFn}, q.f = false → ¬CutsHash q l := fun hq hcuts =>
    Bool.noConfusion (hq.symm.trans hcuts.f)
  induction hn : (src.length - i).toNat using Nat.strong_induction_on generalizing p i with
  | _ n ih =>
    cases hf : p.f with
    | false =>
      rw [loaded_stop hf, loaded_stop hf]
      exact iff_of_true rfl (hstopped hf)
    | true =>
      have hi' : i ≤ (src ++ [newline]).length := by
        rw [List.length_append]
        omega
      rcases appended h0 hi hf with ⟨hhere, hsame⟩ | ⟨hover, hend⟩ | ⟨hhere, hne⟩
      · rcases heval : (parseTop p).eval (lexemes.peek src) i with ⟨⟨rc, p'⟩, j⟩
        have hadvances := @parseTop_advances src i p h0 hi
        rw [heval] at hsame hadvances
        rw [loaded_round hf h0 hi' hsame, loaded_round hf h0 hi heval, cutsHash_iff hf, heval]
        split_ifs with hrc
        · cases hf' : p'.f with
          | false =>
            rw [loaded_stop hf', loaded_stop hf']
            refine iff_of_true rfl ?_
            rintro (hcuts | ⟨q, k, heq, hq, -⟩)
            · exact hhere hcuts
            · obtain ⟨⟨-, rfl⟩, -⟩ := Prod.mk.inj heq |>.imp Prod.mk.inj id
              exact Bool.noConfusion (hf'.symm.trans hq)
          | true =>
            obtain ⟨hlt, hle⟩ := hadvances hrc hf'
            dsimp only at hlt hle
            refine (ih _ (by omega) (by omega) hle rfl).trans (not_congr ⟨fun hcuts => ?_, ?_⟩)
            · exact .inr ⟨p', j, by rw [hrc], hf', hcuts⟩
            rintro (hcuts | ⟨q, k, heq, -, hcuts⟩)
            · exact absurd hcuts hhere
            · obtain ⟨⟨-, rfl⟩, rfl⟩ := Prod.mk.inj heq |>.imp Prod.mk.inj id
              exact hcuts
        · refine iff_of_true rfl ?_
          rintro (hcuts | ⟨q, k, heq, -, -⟩)
          · exact hhere hcuts
          · exact hrc (congrArg (fun x => x.1.1) heq)
      · rw [hend, loaded_over h0 hi hover, cutsHash_iff hf]
        obtain ⟨rc, j, heval⟩ := hover
        refine iff_of_true rfl ?_
        rintro (hcuts | ⟨q, k, heq, hq, -⟩)
        · have hentry := (eval_of_cutsHere p h0 hi hcuts).symm.trans heval
          exact Bool.noConfusion (hf.symm.trans (congrArg (fun x => x.1.2.f) hentry))
        · have hstop := heval.symm.trans heq
          exact Bool.noConfusion ((congrArg (fun x => x.1.2.f) hstop).trans hq)
      · exact iff_of_false hne (not_not_intro ((cutsHash_iff hf).mpr (.inl hhere)))

/-- What `pgr_authdb` loads. -/
theorem pgrAuthdb_eq (c : Context) (text : List Octet) : ∃ entries, loaded text parserInit 0 = some entries ∧
    pgrAuthdb c text = some (0, { c with authdb := entries.reverse }) := by
  obtain ⟨⟨rc, p⟩, hx⟩ := exists_run text
  obtain ⟨l, hrun⟩ := hx 0
  obtain ⟨l', hemit, -⟩ := lexemes.run_emit (parse_ends (text.length + 2) parserInit) text 0
  have hparse : parseText text = some (rc, p) := by
    rw [add_zero] at hrun
    rw [parseText, hrun]
    rfl
  have heval : ((parse (text.length + 2) parserInit).eval (lexemes.peek text) 0).1 = some (rc, p) :=
    congrArg Prod.fst (Option.some.inj (hemit.symm.trans hrun))
  obtain rfl := parseText_rc hparse
  refine ⟨p.entries, by rw [loaded, heval]; rfl, ?_⟩
  rw [pgrAuthdb, hparse]
  rfl

/-- What `pgr_authdb` loads is the same with a newline behind the text, if and only if no hash is cut short. -/
theorem pgrAuthdb_append_iff (text : List Octet) :
    (∀ c, pgrAuthdb c (text ++ [newline]) = pgrAuthdb c text) ↔ ¬CutsHash parserInit (lexerInit text) := by
  refine Iff.trans ⟨fun h => ?_, fun h c => ?_⟩ (loaded_append_iff le_rfl (Int.natCast_nonneg _))
  · obtain ⟨entries, hloaded, hresult⟩ := pgrAuthdb_eq .zero text
    obtain ⟨entries', hloaded', hresult'⟩ := pgrAuthdb_eq .zero (text ++ [newline])
    have hsame := hresult'.symm.trans ((h .zero).trans hresult)
    have hentries : entries'.reverse = entries.reverse := congrArg (fun x => x.2.authdb) (Option.some.inj hsame)
    rw [hloaded, hloaded', List.reverse_injective hentries]
  · obtain ⟨entries, hloaded, hresult⟩ := pgrAuthdb_eq c text
    obtain ⟨entries', hloaded', hresult'⟩ := pgrAuthdb_eq c (text ++ [newline])
    rw [hloaded, hloaded'] at h
    rw [hresult, hresult', Option.some.inj h]

end PgRouter.Authdb
