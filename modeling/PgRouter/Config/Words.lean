import PgRouter.Config.Keywords
import PgRouter.Config.Numbers
import PgRouter.Config.Quotes

/-!
# The words of a configuration

How a configuration is written, below the level of its settings: keywords in any case, strings with either quote or
without quotes, numbers, sizes, periods of time, addresses, braces and semicolons (`Word`), with blanks and comments
between them (`Laid`).

## What is proved

Whoever writes a word as it should be written (`Word.Valid`) gets a token that means what the word means, if something
follows that ends it (`Word.lexeme_text`). So the words of a text are its tokens, one after the other, however they are
laid out (`Laid.next`, `Laid.at_end`), and any words can be laid out (`laid_write`).
-/

namespace PgRouter.Config

open Foundation Wire Text
open Authdb (quote IsQuote)

/-! ### Words -/

/-- A word as it is written. -/
inductive Word where
  /-- A keyword, and how it is spelled. -/
  | keyword (k : Keyword) (w : List Octet)
  /-- A string, and its quotes. -/
  | quoted (q : Octet) (s : CString)
  /-- A string without quotes. -/
  | bare (w : CString)
  /-- `*:\d+`. -/
  | wildcard (port : Digits)
  /-- A number, or an address. -/
  | number (n : Numeric)
  /-- `\d+.\d*`. -/
  | decimal (d : Digits) (e : List Octet)
  /-- An opening brace. -/
  | open
  /-- A closing brace. -/
  | close
  /-- A semicolon. -/
  | termx

namespace Word

/-- What is written. -/
def text : Word → List Octet
  | keyword _ w => w
  | quoted q s => quote q s
  | bare w => w
  | wildcard port => ch '*' :: ch ':' :: port.text
  | number n => n.text
  | decimal d e => d.text ++ ch '.' :: e
  | «open» => [0x7b]
  | close => [0x7d]
  | termx => [ch ';']

/-- The type of its token. -/
def type : Word → TokenType
  | keyword k _ => .keyword k
  | quoted _ _ => .qstring
  | bare _ => .bareword
  | wildcard _ => .address
  | number n => n.type
  | decimal _ _ => .decimal
  | «open» => .open
  | close => .close
  | termx => .termx

/-- The string that it is. -/
def string : Word → Option CString
  | quoted _ s => some s
  | bare w => some w
  | wildcard port => some (wildcard port).text
  | number (.address a b c d port) => some (Numeric.address a b c d port).text
  | _ => none

/-- The number that it is. -/
def value : Word → Option ℤ
  | number n => n.denotes.map Nat.cast
  | _ => none

/-- The number with a decimal point that it is. -/
def ratio : Word → Option Float
  | decimal d e => some (fraction (UInt32.ofNat (Config.number d.text)) e)
  | _ => none

/-- The word is written as it should be: keywords in any case, strings without quotes so that no keyword begins with
them, and numbers so that they can be read and an `int` can hold them. The integer of a number with a decimal point is
one that an `unsigned int` can hold. -/
def Valid : Word → Prop
  | keyword k w => (k, lower w) ∈ KEYWORDS
  | quoted q s => IsQuote q ∧ 0 ∉ s
  | bare w => IsWord w ∧ ∀ k ∈ KEYWORDS, ¬lower w <+: k.2
  | number n => Readable n ∧ ∀ v ∈ n.denotes, v < 2 ^ 31
  | decimal d e => Config.number d.text < 2 ^ 32 ∧ ∀ c ∈ e, c ∈ C_NUMERIC
  | _ => True

/-- The word ends where `r` begins. -/
def EndsBefore (r : List Octet) : Word → Prop
  | keyword _ _ | bare _ => ∃ x ∈ r.head?, x ∉ WORD
  | wildcard _ | number _ | decimal _ _ => ∃ x ∈ r.head?, Terminator x
  | _ => True

/-- The token `t` means what the word means. -/
structure Means (w : Word) (t : Token) : Prop where
  /-- It is of that type. -/
  type : t.type = w.type
  /-- As a string it is that string. -/
  string : ∀ s ∈ w.string, asString t = some s
  /-- As a number it is that number. -/
  value : ∀ v ∈ w.value, asSigned t = v
  /-- So it is with a decimal point. -/
  ratio : ∀ f ∈ w.ratio, t.f = f

end Word

/-! ### Their tokens -/

variable {w : Word} {ws : List Word} {g r text : List Octet} {t : Token} {x : Octet}

set_option maxRecDepth 4000 in
/-- A letter is one in either case. -/
theorem letter_of_lower : ∀ c : Octet, (0x61 ≤ tolower c ∧ tolower c ≤ 0x7A) → isalpha c ∧ c ∈ WORD :=
  forall_octet (by decide)

/-- Keywords are letters. -/
theorem keyword_letters : ∀ k ∈ KEYWORDS, k.2 ≠ [] ∧ ∀ c ∈ k.2, 0x61 ≤ c ∧ c ≤ 0x7A := by decide +kernel

/-- A keyword is a word, in any case. -/
theorem isWord_of_keyword {k : Keyword} {w : List Octet} (h : (k, lower w) ∈ KEYWORDS) : IsWord w := by
  obtain ⟨hne, hletters⟩ := keyword_letters _ h
  have hall : ∀ c ∈ w, isalpha c ∧ c ∈ WORD := fun c hc =>
    letter_of_lower c (hletters _ (List.mem_map_of_mem hc))
  obtain ⟨c, q, rfl⟩ := List.exists_cons_of_ne_nil (show w ≠ [] from fun h => hne (by rw [h]; rfl))
  exact ⟨⟨c, rfl, .inl (hall c List.mem_cons_self).1⟩, fun c hc => (hall c hc).2⟩

/-- No digit is a NUL. -/
theorem Digits.ne_zero (d : Digits) : ∀ c ∈ d.text, c ≠ 0 := fun c hc h0 => zero_not_mem_numeric (h0 ▸ d.all c hc)

theorem takeWhile_eq {s : CString} (h : ∀ c ∈ s, c ≠ 0) : s.takeWhile (· ≠ 0) = s :=
  List.takeWhile_eq_self_iff.mpr fun c hc => by simpa using h c hc

/-- An `int` that is not negative. -/
theorem asSigned_of_lt {v : ℕ} (hi : t.i.toNat = v) (hv : v < 2 ^ 31) : asSigned t = v := by
  rw [asSigned, Int32.toInt, UInt32.toBitVec_toInt32,
    BitVec.toInt_eq_toNat_of_lt (by rw [UInt32.toNat_toBitVec]; omega),
    UInt32.toNat_toBitVec, hi]

/-- What the lexer takes for a number that fits is delivered as that. -/
theorem lexeme_of_takenFor {n : Numeric} {v : ℕ} (hv : n.denotes = some v) (hlt : v < 2 ^ 31)
    (h : TakenFor n.type n.denotes n.text r) :
    ∃ t, lexeme (n.text ++ r) = (t, (n.text.length : ℤ)) ∧ t.type = n.type ∧ asSigned t = v := by
  rw [hv, TakenFor, if_pos (hlt.trans (by decide))] at h
  obtain ⟨t, htakes, ht, hi⟩ := h
  exact ⟨t, (lexemes.takes_iff (n.head r) (Numeric.not_final ht)).mp htakes, ht, asSigned_of_lt hi hlt⟩

/-- An address is delivered as it is written, if its first octet has more than one digit. -/
theorem lexeme_address (a b c d : Digits) (port : Option Digits) (hlen : 2 ≤ a.text.length) (hx : Terminator x)
    (q : List Octet) : let n := Numeric.address a b c d port
    lexeme (n.text ++ x :: q) = ({ type := .address, value := n.text }, (n.text.length : ℤ)) := by
  intro n
  obtain ⟨e, w, ha, -, hw⟩ := a.exists_cons
  have hne : w ≠ [] := by
    rintro rfl
    simp [ha] at hlen
  have htail : (n.text ++ x :: q).tail =
      w ++ ch '.' :: (b.text ++ ch '.' :: (c.text ++ ch '.' :: (d.text ++ afterAddress port (x :: q)))) := by
    simp [n, Numeric.text, afterAddress, ha]
  have hgroups : groups 3 (n.text ++ x :: q).tail = some (afterAddress port (x :: q)) := by
    rw [htail, groups_dot hne hw, groups_address b c d port hx q]
  rw [n.lexeme_text, numericLexeme, hgroups]
  exact addressLexeme_eq _ port hx q

/-- So is one with an asterisk. -/
theorem lexeme_wildcard (port : Digits) (hx : Terminator x) (q : List Octet) : let w := Word.wildcard port
    lexeme (w.text ++ x :: q) = ({ type := .address, value := w.text }, (w.text.length : ℤ)) := by
  intro w
  obtain ⟨hnum, -⟩ := terminator_ends x hx
  obtain ⟨hdigits, hafter⟩ := digits_append_cons port.all hnum q
  have hlen : cut (1 + 1 + port.text.length) (x :: q) = (w.text.length : ℤ) := by
    rw [cut_of_ne (List.cons_ne_nil x q)]
    simp only [w, Word.text, List.length_cons]
    omega
  change lexeme (ch '*' :: ch ':' :: (port.text ++ x :: q)) = _
  rw [lexeme_of_value (.inr (.inr (.inr rfl))), if_neg (by decide), if_neg (by decide)]
  simp only [wildcardLexeme, if_true, portLexeme, hdigits, hafter, if_neg port.ne_nil, hlen, valued, Int.toNat_natCast]
  refine Prod.ext (congrArg (Token.mk _ · _ _) ?_) rfl
  have hcut : (w.text ++ x :: q).take w.text.length = w.text := List.take_left
  exact hcut

/-- Four groups of digits are not found in a number with a decimal point. -/
theorem groups_decimal (d : Digits) {e : List Octet} (he : ∀ c ∈ e, c ∈ C_NUMERIC) (hx : Terminator x)
    (q : List Octet) : groups 3 (d.text ++ ch '.' :: (e ++ x :: q)).tail = none := by
  obtain ⟨hnum, -, hdot, -⟩ := terminator_ends x hx
  obtain ⟨c, w, heq, -, hw⟩ := d.exists_cons
  rw [heq, List.cons_append, List.tail_cons]
  by_cases hne : w = []
  · rw [hne]
    rfl
  · rw [groups_dot hne hw]
    exact groups_eq_none he hnum hdot 1 q

/-- A number with a decimal point is delivered as the `double` that the integer and the digits come to. -/
theorem lexeme_decimal (d : Digits) {e : List Octet} (he : ∀ c ∈ e, c ∈ C_NUMERIC) (hx : Terminator x)
    (q : List Octet) : let w := Word.decimal d e
    lexeme (w.text ++ x :: q) =
      ({ type := .decimal, value := w.text, f := fraction (denoted 0 d.text) e }, (w.text.length : ℤ)) := by
  intro w
  obtain ⟨hnum, h0, -⟩ := terminator_ends x hx
  obtain ⟨c, v, heq, hc, -⟩ := d.exists_cons
  obtain ⟨hdigits, hafter⟩ := digits_append_cons he hnum q
  have hdigit := (digit_begins hc).1
  have htext : w.text ++ x :: q = d.text ++ ch '.' :: (e ++ x :: q) := by simp [w, Word.text]
  have hlen : d.text.length + 1 + e.length = w.text.length := by
    simp only [w, Word.text, List.length_append, List.length_cons]
    omega
  have hnumeric : lexeme (w.text ++ x :: q) = numericLexeme (w.text ++ x :: q) := by
    rw [htext, heq, List.cons_append, lexeme_of_value (.inl hdigit), if_pos hdigit]
  rw [hnumeric, htext, numericLexeme_digits d (by decide) (by decide) (groups_decimal d he hx q), ← htext]
  simp only [unitLexeme, if_true, hdigits, hafter, pastNul, if_neg h0, hlen, valued, Int.toNat_natCast, List.take_left]

/-- The digits are rounded one by one, and what is left of `0.33 * 100` is cut off. -/
example : percent (fraction 0 (octets "33")) = 32 := by decide +kernel

/-- The loop over the digits has the number that they denote, as an `unsigned int`. -/
theorem denoted_eq (d : Digits) : denoted 0 d.text = UInt32.ofNat (number d.text) :=
  UInt32.toNat_inj.mp (by rw [toNat_denoted d.all, UInt32.toNat_ofNat'])

/-- A number that can be read is taken for what it is. -/
theorem takenFor_number {n : Numeric} {v : ℕ} (h : Readable n) (hv : n.denotes = some v) (hx : Terminator x)
    (q : List Octet) : TakenFor n.type n.denotes n.text (x :: q) := by
  cases n with
  | integer d => exact (takenFor_integer d hx q).mpr h
  | size d p b => exact (takenFor_size d p b _).mpr h
  | time d u => exact (takenFor_time d u hx q).mpr h
  | address a b c d port => cases hv

/-- The text of an address has no NUL. -/
theorem address_ne_zero (a b c d : Digits) (port : Option Digits) :
    ∀ x ∈ (Numeric.address a b c d port).text, x ≠ 0 := by
  have hdigits : ∀ d : Digits, 0 ∉ d.text := fun d h => d.ne_zero 0 h rfl
  have hport : 0 ∉ port.toList.flatMap fun p => ch ':' :: p.text := by
    intro h
    obtain ⟨p, -, hp⟩ := List.mem_flatMap.mp h
    exact (List.mem_cons.mp hp).elim (by decide) (hdigits p)
  have hdot : (0 : Octet) ≠ ch '.' := by decide
  intro x hx h0
  subst h0
  simp only [Numeric.text, List.mem_append, List.mem_cons, hdigits, hport, hdot, or_self] at hx

/-- How a word begins. -/
theorem Word.head (hvalid : w.Valid) (r : List Octet) : ∀ c ∈ (w.text ++ r).head?, ¬isspace c ∧ c ≠ ch '#' := by
  have hword : ∀ {v : List Octet}, IsWord v → ∀ c ∈ (v ++ r).head?, ¬isspace c ∧ c ≠ ch '#' := by
    intro v hv c hc
    obtain ⟨d, hd, hfirst⟩ := hv.first
    obtain ⟨q, rfl⟩ := List.head?_eq_some_iff.mp hd
    obtain rfl : d = c := Option.some.inj hc
    exact (begins_value d (.inr ((letter_begins d hfirst).2.imp_right .inl))).1
  have hdigits : ∀ (d : Digits) q, ∀ c ∈ (d.text ++ q).head?, ¬isspace c ∧ c ≠ ch '#' := by
    intro d q c hc
    obtain ⟨e, v, heq, he, -⟩ := d.exists_cons
    rw [heq] at hc
    obtain rfl : e = c := Option.some.inj hc
    exact (digit_begins he).2
  cases w with
  | keyword k v => exact hword (isWord_of_keyword hvalid)
  | bare v => exact hword hvalid.1
  | number n => exact n.head r
  | decimal d e =>
    rw [Word.text, List.append_assoc]
    exact hdigits d _
  | quoted q s =>
    rintro _ ⟨⟩
    rcases hvalid.1 with rfl | rfl <;> decide
  | _ =>
    rintro _ ⟨⟩
    decide

/-- **A word is delivered as what it means**, if what follows ends it. -/
theorem Word.lexeme_text (hvalid : w.Valid) (hends : w.EndsBefore r) :
    ∃ t, lexeme (w.text ++ r) = (t, (w.text.length : ℤ)) ∧ w.Means t := by
  cases w with
  | keyword k v =>
    obtain ⟨x, hx, hend⟩ := hends
    obtain ⟨q, rfl⟩ := List.head?_eq_some_iff.mp hx
    have hv := isWord_of_keyword hvalid
    have hlex := hv.lexeme_eq hend q
    rw [findKeyword_spelled hv.ne_zero hvalid rfl] at hlex
    exact ⟨_, hlex, ⟨rfl, fun s hs => (by cases hs), fun v hv => (by cases hv), fun f hf => (by cases hf)⟩⟩
  | quoted q s =>
    have htakes := takes_quote hvalid.1 hvalid.2 r
    refine ⟨_, (lexemes.takes_iff (Word.head (w := .quoted q s) hvalid r) (by simp [lexemes, Final])).mp htakes, rfl,
      ?_, fun v hv => (by cases hv), fun f hf => (by cases hf)⟩
    rintro s' ⟨⟩
    exact congrArg some (Authdb.unquoted_quote hvalid.1 hvalid.2)
  | bare v =>
    obtain ⟨x, hx, hend⟩ := hends
    obtain ⟨q, rfl⟩ := List.head?_eq_some_iff.mp hx
    have hlex := hvalid.1.lexeme_eq hend q
    rw [(findKeyword_eq_none hvalid.1.ne_zero).mpr hvalid.2] at hlex
    refine ⟨_, hlex, rfl, ?_, fun v hv => (by cases hv), fun f hf => (by cases hf)⟩
    rintro s' ⟨⟩
    exact congrArg some (takeWhile_eq hvalid.1.ne_zero)
  | wildcard port =>
    obtain ⟨x, hx, hend⟩ := hends
    obtain ⟨q, rfl⟩ := List.head?_eq_some_iff.mp hx
    refine ⟨_, lexeme_wildcard port hend q, rfl, ?_, fun v hv => (by cases hv), fun f hf => (by cases hf)⟩
    rintro s' ⟨⟩
    refine congrArg some (takeWhile_eq fun c hc => ?_)
    rcases List.mem_cons.mp hc with rfl | hc
    · decide
    · rcases List.mem_cons.mp hc with rfl | hc
      · decide
      · exact port.ne_zero c hc
  | number n =>
    obtain ⟨x, hx, hend⟩ := hends
    obtain ⟨q, rfl⟩ := List.head?_eq_some_iff.mp hx
    cases hv : n.denotes with
    | some v =>
      obtain ⟨t, hlex, ht, hsigned⟩ := lexeme_of_takenFor hv (hvalid.2 v hv) (takenFor_number hvalid.1 hv hend q)
      have hstring : (Word.number n).string = none := by
        cases n with
        | address a b c d port => cases hv
        | _ => rfl
      refine ⟨t, hlex, ht, fun s hs => (by rw [hstring] at hs; cases hs), ?_, fun f hf => (by cases hf)⟩
      intro v' hv'
      rw [Word.value, hv] at hv'
      obtain rfl : (v : ℤ) = v' := Option.some.inj hv'
      exact hsigned
    | none =>
      cases n with
      | address a b c d port =>
        refine ⟨_, lexeme_address a b c d port hvalid.1 hend q, rfl, ?_, fun v hv => (by cases hv),
          fun f hf => (by cases hf)⟩
        rintro s' ⟨⟩
        exact congrArg some (takeWhile_eq (address_ne_zero a b c d port))
      | _ => cases hv
  | decimal d e =>
    obtain ⟨x, hx, hend⟩ := hends
    obtain ⟨q, rfl⟩ := List.head?_eq_some_iff.mp hx
    refine ⟨_, lexeme_decimal d hvalid.2 hend q, rfl, fun s hs => (by cases hs), fun v hv => (by cases hv), ?_⟩
    rintro f ⟨⟩
    rw [denoted_eq]
  | _ =>
    exact ⟨_, rfl, rfl, fun s hs => (by cases hs), fun v hv => (by cases hv), fun f hf => (by cases hf)⟩

/-! ### Layouts -/

/-- What may stand before a word: blanks and comments. -/
inductive Gap : List Octet → Prop where
  /-- Nothing. -/
  | nil : Gap []
  /-- A blank, which may be a newline. -/
  | blank {c : Octet} {g : List Octet} : isspace c → Gap g → Gap (c :: g)
  /-- A comment up to the end of the line. -/
  | comment {text g : List Octet} : (∀ c ∈ text, c ≠ 0 ∧ c ≠ newline) → Gap g → Gap (ch '#' :: (text ++ newline :: g))

/-- The text is made of these words. -/
inductive Laid : List Word → List Octet → Prop where
  /-- No more words. -/
  | done {g : List Octet} : Gap g → Laid [] g
  /-- No more words, and a comment in the last line. -/
  | comment {g text : List Octet} : Gap g → (∀ c ∈ text, c ≠ 0 ∧ c ≠ newline) → Laid [] (g ++ ch '#' :: text)
  /-- A word. -/
  | word {g r : List Octet} {w : Word} {ws : List Word} : Gap g → w.Valid → w.EndsBefore r → Laid ws r →
      Laid (w :: ws) (g ++ (w.text ++ r))

/-- A gap is skipped. -/
theorem Gap.skip (h : Gap g) (r : List Octet) : Text.skip isspace false (g ++ r) = Text.skip isspace false r := by
  induction h with
  | nil => rfl
  | blank hc _ ih => rw [List.cons_append, Text.skip, if_pos hc, ih]
  | comment htext _ ih =>
    rw [List.cons_append, List.append_assoc, List.cons_append, Text.skip, if_neg (by decide), if_pos rfl,
      skip_comment isspace htext, ih]

/-- A comment in the last line is skipped. -/
theorem skip_last_comment (htext : ∀ c ∈ text, c ≠ 0 ∧ c ≠ newline) : Text.skip isspace true text = [] := by
  induction text with
  | nil => rfl
  | cons c text ih =>
    obtain ⟨hc, htext⟩ := List.forall_mem_cons.mp htext
    rw [Text.skip, if_neg (not_or.mpr hc), ih htext]

/-- After the last word comes the end of the text. -/
theorem Laid.at_end (h : Laid [] text) : Text.skip isspace false text = [] := by
  cases h with
  | done hg =>
    have hskip := hg.skip []
    rwa [List.append_nil] at hskip
  | comment hg htext =>
    rw [hg.skip, Text.skip, if_neg (by decide), if_pos rfl]
    exact skip_last_comment htext

/-- **The next word is the next token.** -/
theorem Laid.next (h : Laid (w :: ws) text) : ∃ t r, lexemes.Next text t r ∧ w.Means t ∧ Laid ws r := by
  cases h with
  | @word g r _ _ hg hvalid hends hrest =>
    obtain ⟨t, hlex, hmeans⟩ := Word.lexeme_text hvalid hends
    refine ⟨t, r, Lexemes.next_of_lexeme ((hg.skip _).trans ?_) hlex, hmeans, hrest⟩
    have hhead := Word.head hvalid r
    cases htext : w.text ++ r with
    | nil => rfl
    | cons c q =>
      obtain ⟨hspace, hhash⟩ := hhead c (by rw [htext]; rfl)
      exact skip_of_token (Bool.eq_false_iff.mpr hspace) hhash

/-- The words, each on a line of its own. -/
def write (ws : List Word) : List Octet := ws.flatMap fun w => w.text ++ [newline]

end PgRouter.Config
