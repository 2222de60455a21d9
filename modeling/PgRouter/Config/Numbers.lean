import PgRouter.Config.Lexeme
import PgRouter.Foundation.Numeral

/-!
# Numbers

`lex_numeric` reads integers, sizes, periods of time and addresses, and tries one after the other. The forms are
those of the comment at its beginning (`Numeric`): each has a text, a type and, but for addresses, a number that it
denotes.

## What is proved

The lexer takes the text of a form for what it is just when it is none of these (`lexedExactly_iff`): a number of
2^32 or more, which wraps around; a number of minutes, for `m` is tried as the beginning of `mb`, and behind that the
lexer is no longer where the `m` is; an address whose first octet has one digit, which `lex_any` has already taken.
-/

namespace PgRouter.Config

open Foundation Wire Text

/-! ### The forms -/

/-- `\d+`. -/
structure Digits where
  /-- The digits. -/
  text : List Octet
  /-- There is one. -/
  ne_nil : text ≠ []
  /-- They are digits. -/
  all : ∀ c ∈ text, c ∈ C_NUMERIC

/-- The number that digits denote. -/
def number (d : List Octet) : ℕ := numeral 10 (d.map fun c => c.toNat - 48)

/-- The forms of numbers. -/
inductive Numeric where
  /-- `\d+`. -/
  | integer (d : Digits)
  /-- `\d+[kKmMgG]?b`, with a `b` of either case. -/
  | size (d : Digits) (p : Option {c : Octet // c ∈ octets "kKmMgG"}) (b : {c : Octet // c ∈ octets "bB"})
  /-- `\d+[smh]`, of either case. -/
  | time (d : Digits) (u : {c : Octet // c ∈ octets "sSmMhH"})
  /-- `\d+.\d+.\d+.\d+`, with `:\d+` or without. -/
  | address (a b c d : Digits) (port : Option Digits)

/-- A power of 1024. -/
def multiple (p : Option {c : Octet // c ∈ octets "kKmMgG"}) : ℕ :=
  match p with
  | none => 1
  | some c => if tolower c = ch 'k' then 1024 else if tolower c = ch 'm' then 1024 ^ 2 else 1024 ^ 3

/-- How many seconds a unit of time has. -/
def seconds (u : Octet) : ℕ := if tolower u = ch 's' then 1 else if tolower u = ch 'm' then 60 else 3600

/-- The text of a form. -/
def Numeric.text : Numeric → List Octet
  | integer d => d.text
  | size d p b => d.text ++ p.toList.map Subtype.val ++ [b.1]
  | time d u => d.text ++ [u.1]
  | address a b c d port => a.text ++ ch '.' :: b.text ++ ch '.' :: c.text ++ ch '.' :: d.text ++
      port.toList.flatMap fun p => ch ':' :: p.text

/-- The type of a form. -/
def Numeric.type : Numeric → TokenType
  | integer _ => .integer
  | size _ _ _ => .size
  | time _ _ => .time
  | address _ _ _ _ _ => .address

/-- The number that a form denotes. -/
def Numeric.denotes : Numeric → Option ℕ
  | integer d => some (number d.text)
  | size d p _ => some (number d.text * multiple p)
  | time d u => some (number d.text * seconds u)
  | address _ _ _ _ _ => none

/-- The lexer takes `d`, with `q` following, for a token of the type `type` with the number `v`. If that is too large
for an `unsigned int`, the token is an error. -/
def TakenFor (type : TokenType) (v : Option ℕ) (d q : List Octet) : Prop :=
  match v with
  | none => ∃ t, Takes rules d q t ∧ t.type = type
  | some v =>
    if v < 2 ^ 32 then ∃ t, Takes rules d q t ∧ t.type = type ∧ t.i.toNat = v
    else ∀ u, ∃ t m, emit rules (Lexer.tokenAt (u ++ (d ++ q)) LexFn.any u.length) = some (t, m) ∧ t.type = .error

/-- What a number ends before: a blank, a semicolon or a closing brace. -/
def Terminator (x : Octet) : Prop := isspace x ∨ x = ch ';' ∨ x = 0x7d

/-- The lexer takes the text of a form for what it is. -/
def LexedExactly (n : Numeric) : Prop := ∀ x r, Terminator x → TakenFor n.type n.denotes n.text (x :: r)

/-- The number fits in an `unsigned int` and is not one of minutes, or the first octet of the address has more than
one digit. -/
def Readable : Numeric → Prop
  | .integer d => number d.text < 2 ^ 32
  | .size d p _ => number d.text * multiple p < 2 ^ 32
  | .time d u => tolower u ≠ ch 'm' ∧ number d.text * seconds u < 2 ^ 32
  | .address a _ _ _ _ => 2 ≤ a.text.length

/-! ### Digits -/

theorem Digits.exists_cons (d : Digits) : ∃ c q, d.text = c :: q ∧ c ∈ C_NUMERIC ∧ ∀ c ∈ q, c ∈ C_NUMERIC := by
  obtain ⟨c, q, heq⟩ := List.exists_cons_of_ne_nil d.ne_nil
  obtain ⟨hc, hq⟩ := List.forall_mem_cons.mp (heq ▸ d.all)
  exact ⟨c, q, heq, hc, hq⟩

variable {d q : List Octet} {x y : Octet}

/-- Digits end before what is not one. -/
theorem digits_append_cons (hd : ∀ c ∈ d, c ∈ C_NUMERIC) (hy : y ∉ C_NUMERIC) (q : List Octet) :
    digits (d ++ y :: q) = d ∧ afterDigits (d ++ y :: q) = y :: q := by
  have hd' : ∀ c ∈ d, decide (c ∈ C_NUMERIC) = true := fun c hc => decide_eq_true (hd c hc)
  rw [digits, afterDigits, List.takeWhile_append_of_pos hd', List.dropWhile_append_of_pos hd',
    List.takeWhile_cons_of_neg (by simpa using hy), List.dropWhile_cons_of_neg (by simpa using hy), List.append_nil]
  exact ⟨rfl, rfl⟩

/-- Groups of digits end before what is neither a digit nor a dot. -/
theorem groups_eq_none (hd : ∀ c ∈ d, c ∈ C_NUMERIC) (hy : y ∉ C_NUMERIC) (hdot : y ≠ ch '.') (k : ℕ) (q : List Octet) :
    groups (k + 1) (d ++ y :: q) = none := by
  obtain ⟨hdigits, hafter⟩ := digits_append_cons hd hy q
  rw [groups, hdigits, hafter]
  simp only [if_neg hdot, ite_self]

/-- A group of digits and a dot. -/
theorem groups_dot (hne : d ≠ []) (hd : ∀ c ∈ d, c ∈ C_NUMERIC) (k : ℕ) (q : List Octet) :
    groups (k + 1) (d ++ ch '.' :: q) = groups k q := by
  obtain ⟨hdigits, hafter⟩ := digits_append_cons hd (y := ch '.') (by decide) q
  rw [groups, hdigits, hafter]
  simp only [if_neg hne, if_true]

/-- The last group of digits. -/
theorem groups_last (hne : d ≠ []) (hd : ∀ c ∈ d, c ∈ C_NUMERIC) (hy : y ∉ C_NUMERIC) (q : List Octet) :
    groups 0 (d ++ y :: q) = some (y :: q) := by
  obtain ⟨hdigits, hafter⟩ := digits_append_cons hd hy q
  rw [groups, hdigits, hafter, if_neg hne]

set_option maxRecDepth 4000 in
/-- A digit is as far above `'0'` as its number says. -/
theorem toNat_digit : ∀ c : Octet, c ∈ C_NUMERIC → (digit c).toNat = c.toNat - 48 := forall_octet (by decide)

/-- **The loop over digits** has the number that they denote, modulo 2^32. -/
theorem toNat_denoted (hd : ∀ c ∈ d, c ∈ C_NUMERIC) : (denoted 0 d).toNat = number d % 2 ^ 32 := by
  have hstep : ∀ i : UInt32, ∀ c ∈ d, (i * 10 + digit c).toNat ≡ i.toNat * 10 + (c.toNat - 48) [MOD 2 ^ 32] := by
    intro i c hc
    rw [UInt32.toNat_add, UInt32.toNat_mul, toNat_digit c (hd c hc)]
    exact (Nat.mod_modEq _ _).trans ((Nat.mod_modEq _ _).add_right _)
  have hfold : (denoted 0 d).toNat ≡ number d [MOD 2 ^ 32] := by
    simpa [denoted, number] using foldl_numeral_modEq hstep 0
  exact (Nat.mod_eq_of_lt (denoted 0 d).toNat_lt).symm.trans hfold

/-- So does a multiple of it. -/
theorem toNat_denoted_mul (hd : ∀ c ∈ d, c ∈ C_NUMERIC) {f : UInt32} {n : ℕ} (hf : f.toNat = n) :
    (denoted 0 d * f).toNat = number d * n % 2 ^ 32 := by
  rw [UInt32.toNat_mul, toNat_denoted hd, hf, Nat.mod_mul_mod]

/-! ### What begins with a digit -/

/-- A digit begins a number. -/
theorem digit_begins {c : Octet} (hc : c ∈ C_NUMERIC) : isdigit c ∧ ¬isspace c ∧ c ≠ ch '#' := by
  have hdigit := (isdigit_iff_mem c).mpr hc
  exact ⟨hdigit, (begins_value c (.inl hdigit)).1⟩

theorem Numeric.exists_cons (n : Numeric) : ∃ c w, n.text = c :: w ∧ c ∈ C_NUMERIC := by
  have hfirst : ∀ d : Digits, ∀ w, ∃ c w', d.text ++ w = c :: w' ∧ c ∈ C_NUMERIC := by
    intro d w
    obtain ⟨c, q, heq, hc, -⟩ := d.exists_cons
    exact ⟨c, q ++ w, by rw [heq, List.cons_append], hc⟩
  cases n with
  | integer d => simpa [text] using hfirst d []
  | size d p b => simpa [text] using hfirst d (p.toList.map Subtype.val ++ [b.1])
  | time d u => exact hfirst d [u.1]
  | address a b c d port => simpa [text] using hfirst a _

theorem Numeric.lexeme_text (n : Numeric) (q : List Octet) : lexeme (n.text ++ q) = numericLexeme (n.text ++ q) := by
  obtain ⟨c, w, heq, hc⟩ := n.exists_cons
  have hdigit := (digit_begins hc).1
  rw [heq, List.cons_append, lexeme_of_value (.inl hdigit), if_pos hdigit]

theorem Numeric.head (n : Numeric) (q : List Octet) : ∀ c ∈ (n.text ++ q).head?, ¬isspace c ∧ c ≠ ch '#' := by
  obtain ⟨c, w, heq, hc⟩ := n.exists_cons
  rw [heq]
  rintro d hd
  obtain rfl : c = d := Option.some.inj hd
  exact (digit_begins hc).2

theorem Numeric.not_final {n : Numeric} {t : Token} (ht : t.type = n.type) : ¬Final t := by
  rintro (h | h) <;> cases n <;> cases ht.symm.trans h

/-- A number is taken for what it is, as far as it fits, if the lexer delivers it modulo 2^32. -/
theorem Numeric.takenFor_number {n : Numeric} {v : ℕ} (hv : n.denotes = some v) {t : Token} (ht : t.type = n.type)
    (hi : t.i.toNat = v % 2 ^ 32) (hlex : numericLexeme (n.text ++ q) = (t, (n.text.length : ℤ))) :
    TakenFor n.type n.denotes n.text q ↔ v < 2 ^ 32 := by
  rw [← n.lexeme_text] at hlex
  rw [hv, TakenFor]
  by_cases hlt : v < 2 ^ 32
  · rw [if_pos hlt]
    refine iff_of_true ⟨t, ?_, ht, by rw [hi, Nat.mod_eq_of_lt hlt]⟩ hlt
    exact (lexemes.takes_iff (n.head q) (not_final ht)).mpr hlex
  · rw [if_neg hlt]
    refine iff_of_false (fun h => ?_) hlt
    obtain ⟨t', m, hemit, herror⟩ := h []
    obtain ⟨m', hemit', -⟩ := lexemes.emit_lexeme [] (n.head q)
    obtain ⟨rfl, -⟩ := Prod.mk.inj (Option.some.inj (hemit.symm.trans hemit'))
    rw [show lexemes.lexeme = lexeme from rfl, hlex] at herror
    exact not_final ht (.inr herror)

/-- It is not if the lexer delivers another type. -/
theorem Numeric.not_takenFor {n : Numeric} (hne : (numericLexeme (n.text ++ q)).1.type ≠ n.type)
    (herror : (numericLexeme (n.text ++ q)).1.type ≠ .error) : ¬TakenFor n.type n.denotes n.text q := by
  rw [← n.lexeme_text] at hne herror
  have hno : ∀ t, Takes rules n.text q t → t.type ≠ n.type := fun t htakes ht => by
    have hlex : lexeme (n.text ++ q) = _ := (lexemes.takes_iff (n.head q) (not_final ht)).mp htakes
    rw [hlex] at hne
    exact hne ht
  unfold TakenFor
  split
  · rintro ⟨t, htakes, ht⟩
    exact hno t htakes ht
  · split_ifs
    · rintro ⟨t, htakes, ht, -⟩
      exact hno t htakes ht
    · intro h
      obtain ⟨t, m, hemit, ht⟩ := h []
      obtain ⟨m', hemit', -⟩ := lexemes.emit_lexeme [] (n.head q)
      obtain ⟨rfl, -⟩ := Prod.mk.inj (Option.some.inj (hemit.symm.trans hemit'))
      exact herror ht

/-- What follows the digits of a number decides what it is. -/
theorem numericLexeme_digits (d : Digits) (hy : y ∉ C_NUMERIC) (h0 : y ≠ 0)
    (hgroups : groups 3 (d.text ++ y :: q).tail = none) :
    numericLexeme (d.text ++ y :: q) = unitLexeme (d.text ++ y :: q) (denoted 0 d.text) d.text.length (y :: q) := by
  obtain ⟨hdigits, hafter⟩ := digits_append_cons d.all hy q
  simp only [numericLexeme, hgroups, numberLexeme, hdigits, hafter, pastNul, if_neg h0]

/-- So it is if no dot follows. -/
theorem numericLexeme_unit (d : Digits) (hy : y ∉ C_NUMERIC) (h0 : y ≠ 0) (hdot : y ≠ ch '.') (q : List Octet) :
    numericLexeme (d.text ++ y :: q) = unitLexeme (d.text ++ y :: q) (denoted 0 d.text) d.text.length (y :: q) := by
  refine numericLexeme_digits d hy h0 ?_
  obtain ⟨c, w, heq, -, hw⟩ := d.exists_cons
  rw [heq, List.cons_append, List.tail_cons]
  exact groups_eq_none hw hy hdot 2 q

/-! ### The forms -/

set_option maxRecDepth 4000 in
/-- What ends a number is no part of one. -/
theorem terminator_ends : ∀ x : Octet, Terminator x → x ∉ C_NUMERIC ∧ x ≠ 0 ∧ x ≠ ch '.' ∧ x ≠ ch ':' ∧
    ¬(x = ch 'b' ∨ x = ch 'B') ∧ ¬strchr (octets "kKmMgGbB") x ∧ ¬strchr (octets "sSmMhH") x := by
  have hall : ∀ x : Octet, isspace x ∨ x = ch ';' ∨ x = 0x7d → x ∉ C_NUMERIC ∧ x ≠ 0 ∧ x ≠ ch '.' ∧ x ≠ ch ':' ∧
      ¬(x = ch 'b' ∨ x = ch 'B') ∧ ¬strchr (octets "kKmMgGbB") x ∧ ¬strchr (octets "sSmMhH") x :=
    forall_octet (by decide)
  exact hall

/-- An integer. -/
theorem takenFor_integer (d : Digits) (hx : Terminator x) (q : List Octet) :
    TakenFor .integer (some (number d.text)) d.text (x :: q) ↔ number d.text < 2 ^ 32 := by
  obtain ⟨hnum, h0, hdot, -, hb, hk, hs⟩ := terminator_ends x hx
  refine (Numeric.integer d).takenFor_number (t := { type := .integer, value := d.text, i := denoted 0 d.text }) rfl rfl
    (toNat_denoted d.all) ?_
  change numericLexeme (d.text ++ x :: q) = _
  rw [numericLexeme_unit d hnum h0 hdot]
  simp only [unitLexeme, if_neg hdot, if_neg hb, if_neg hk, if_neg hs, valued, Int.toNat_natCast, List.take_left]
  rfl

set_option maxRecDepth 4000 in
/-- A size. -/
theorem takenFor_size (d : Digits) (p : Option {c : Octet // c ∈ octets "kKmMgG"}) (b : {c : Octet // c ∈ octets "bB"})
    (q : List Octet) : let n := Numeric.size d p b
    TakenFor n.type n.denotes n.text q ↔ number d.text * multiple p < 2 ^ 32 := by
  intro n
  have hb : ∀ b ∈ octets "bB", b ∉ C_NUMERIC ∧ b ≠ 0 ∧ b ≠ ch '.' ∧ (b = ch 'b' ∨ b = ch 'B') ∧ sizeFactor b = 1 := by
    decide
  obtain ⟨hnum, h0, hdot, hbyte, hone⟩ := hb b.1 b.2
  cases p with
  | none =>
    have htext : n.text = d.text ++ [b.1] := by simp [n, Numeric.text]
    refine n.takenFor_number (t := { type := .size, value := n.text, i := denoted 0 d.text * sizeFactor b.1 }) rfl rfl
      (toNat_denoted_mul d.all (by rw [hone]; rfl)) ?_
    rw [htext, List.append_assoc, List.singleton_append, numericLexeme_unit d hnum h0 hdot]
    have hlen : d.text.length + 1 = (d.text ++ [b.1]).length := by rw [List.length_append]; rfl
    have hsplit : d.text ++ b.1 :: q = (d.text ++ [b.1]) ++ q := by simp
    simp only [unitLexeme, if_neg hdot, if_pos hbyte, valued, Int.toNat_natCast, hlen]
    rw [hsplit, List.take_left]
  | some c =>
    have hc : ∀ c ∈ octets "kKmMgG", c ∉ C_NUMERIC ∧ c ≠ 0 ∧ c ≠ ch '.' ∧ ¬(c = ch 'b' ∨ c = ch 'B') ∧
        strchr (octets "kKmMgGbB") c ∧ ∀ h : c ∈ octets "kKmMgG", (sizeFactor c).toNat = multiple (some ⟨c, h⟩) := by
      decide
    obtain ⟨hcnum, hc0, hcdot, hcb, hck, hfactor⟩ := hc c.1 c.2
    have htext : n.text = d.text ++ [c.1, b.1] := by simp [n, Numeric.text]
    refine n.takenFor_number (t := { type := .size, value := n.text, i := denoted 0 d.text * sizeFactor c.1 }) rfl rfl
      (toNat_denoted_mul d.all (hfactor c.2)) ?_
    rw [htext, List.append_assoc, List.cons_append, List.singleton_append, numericLexeme_unit d hcnum hc0 hcdot]
    have hlen : d.text.length + 2 = (d.text ++ [c.1, b.1]).length := by rw [List.length_append]; rfl
    have hsplit : d.text ++ c.1 :: b.1 :: q = (d.text ++ [c.1, b.1]) ++ q := by simp
    simp only [unitLexeme, if_neg hcdot, if_neg hcb, if_pos hck, List.headD_cons, if_pos hbyte, valued,
      Int.toNat_natCast, hlen]
    rw [hsplit, List.take_left]

set_option maxRecDepth 4000 in
/-- A period of time. -/
theorem takenFor_time (d : Digits) (u : {c : Octet // c ∈ octets "sSmMhH"}) (hx : Terminator x) (q : List Octet) :
    let n := Numeric.time d u
    TakenFor n.type n.denotes n.text (x :: q) ↔ tolower u ≠ ch 'm' ∧ number d.text * seconds u < 2 ^ 32 := by
  intro n
  have hu : ∀ c ∈ octets "sSmMhH", c ∉ C_NUMERIC ∧ c ≠ 0 ∧ c ≠ ch '.' ∧ ¬(c = ch 'b' ∨ c = ch 'B') ∧
      strchr (octets "sSmMhH") c ∧ (strchr (octets "kKmMgGbB") c ↔ tolower c = ch 'm') ∧
      (timeFactor c).toNat = seconds c := by
    decide
  obtain ⟨hnum, h0, hdot, hb, hs, hk, hfactor⟩ := hu u.1 u.2
  have hlex : numericLexeme (n.text ++ x :: q) =
      unitLexeme (d.text ++ u.1 :: x :: q) (denoted 0 d.text) d.text.length (u.1 :: x :: q) := by
    rw [show n.text = d.text ++ [u.1] from rfl, List.append_assoc, List.singleton_append,
      numericLexeme_unit d hnum h0 hdot]
  by_cases hm : tolower u.1 = ch 'm'
  · -- what follows is no `b`, and then it is taken for the unit
    obtain ⟨-, -, -, -, hxb, -, hxs⟩ := terminator_ends x hx
    have hint : (numericLexeme (n.text ++ x :: q)).1.type = .integer := by
      have hxb' : ¬((x :: q).headD 0 = ch 'b' ∨ (x :: q).headD 0 = ch 'B') := hxb
      have hxs' : ¬strchr (octets "sSmMhH") ((x :: q).headD 0) := hxs
      rw [hlex]
      simp only [unitLexeme, if_neg hdot, if_neg hb, if_pos (hk.mpr hm), if_neg hxb', if_neg hxs']
      rfl
    refine iff_of_false (Numeric.not_takenFor ?_ ?_) fun h => h.1 hm
    · rw [hint]
      intro h
      cases h
    · rw [hint]
      intro h
      cases h
  · rw [and_iff_right hm]
    refine n.takenFor_number (t := { type := .time, value := n.text, i := denoted 0 d.text * timeFactor u.1 }) rfl rfl
      (toNat_denoted_mul d.all hfactor) ?_
    have hlen : d.text.length + 1 = n.text.length := by simp [n, Numeric.text]
    have hsplit : d.text ++ u.1 :: x :: q = n.text ++ x :: q := by simp [n, Numeric.text]
    rw [hlex]
    simp only [unitLexeme, if_neg hdot, if_neg hb, if_neg (mt hk.mp hm), if_pos hs, valued, Int.toNat_natCast, hlen]
    rw [hsplit, List.take_left]

/-- What follows the groups of digits of an address. -/
def afterAddress (port : Option Digits) (q : List Octet) : List Octet :=
  (port.toList.flatMap fun p => ch ':' :: p.text) ++ q

/-- The groups of digits of an address, from the second one on. -/
theorem groups_address (b c d : Digits) (port : Option Digits) (hx : Terminator x) (q : List Octet) :
    groups 2 (b.text ++ ch '.' :: (c.text ++ ch '.' :: (d.text ++ afterAddress port (x :: q)))) =
      some (afterAddress port (x :: q)) := by
  rw [groups_dot b.ne_nil b.all, groups_dot c.ne_nil c.all]
  cases port with
  | none => exact groups_last d.ne_nil d.all (terminator_ends x hx).1 q
  | some p => exact groups_last d.ne_nil d.all (by decide) _

/-- An address that is found is taken as a whole. -/
theorem addressLexeme_eq (w : List Octet) (port : Option Digits) (hx : Terminator x) (q : List Octet) :
    let text := w ++ port.toList.flatMap fun p => ch ':' :: p.text
    addressLexeme (text ++ x :: q) (afterAddress port (x :: q)) =
      ({ type := .address, value := text }, (text.length : ℤ)) := by
  intro text
  obtain ⟨hnum, -, -, hcolon, -⟩ := terminator_ends x hx
  have hwhole : text ++ x :: q = w ++ afterAddress port (x :: q) := List.append_assoc _ _ _
  have hlen : (text ++ x :: q).length - (afterAddress port (x :: q)).length = w.length := by
    rw [hwhole, List.length_append, Nat.add_sub_cancel]
  have hvalued : ∀ len : ℤ, len = text.length →
      valued { type := .address } (text ++ x :: q) len = ({ type := .address, value := text }, (text.length : ℤ)) := by
    rintro _ rfl
    rw [valued, Int.toNat_natCast, List.take_left]
  cases port with
  | none =>
    have htext : text = w := List.append_nil w
    have hafter : afterAddress none (x :: q) = x :: q := rfl
    rw [hafter] at hlen ⊢
    simp only [addressLexeme, if_neg hcolon, hlen]
    exact hvalued _ (by rw [htext])
  | some p =>
    obtain ⟨hdigits, hrest⟩ := digits_append_cons p.all hnum q
    have htext : text.length = w.length + 1 + p.text.length := by
      simp only [text, Option.toList_some, List.flatMap_singleton, List.length_append, List.length_cons]
      omega
    have hafter : afterAddress (some p) (x :: q) = ch ':' :: (p.text ++ x :: q) := by simp [afterAddress]
    rw [hafter] at hlen ⊢
    simp only [addressLexeme, if_true, hlen, portLexeme, hdigits, hrest, if_neg p.ne_nil]
    exact hvalued _ (by rw [cut_of_ne (List.cons_ne_nil x q), htext])

/-- An address is taken for one if its first octet has more than one digit. -/
theorem takenFor_address (a b c d : Digits) (port : Option Digits) (hx : Terminator x) (q : List Octet) :
    let n := Numeric.address a b c d port
    TakenFor n.type n.denotes n.text (x :: q) ↔ 2 ≤ a.text.length := by
  intro n
  obtain ⟨e, w, ha, he, hw⟩ := a.exists_cons
  have htext : n.text ++ x :: q =
      a.text ++ ch '.' :: (b.text ++ ch '.' :: (c.text ++ ch '.' :: (d.text ++ afterAddress port (x :: q)))) := by
    simp [n, Numeric.text, afterAddress]
  have htail : (n.text ++ x :: q).tail =
      w ++ ch '.' :: (b.text ++ ch '.' :: (c.text ++ ch '.' :: (d.text ++ afterAddress port (x :: q)))) := by
    rw [htext, ha]
    rfl
  by_cases hne : w = []
  · -- the digit has been taken, and none comes before the dot
    have hdot : (ch '.') ∉ C_NUMERIC := by decide
    have hdecimal : (numericLexeme (n.text ++ x :: q)).1.type = .decimal := by
      rw [hne] at htail
      rw [htext, numericLexeme_digits a hdot (by decide) (by rw [← htext, htail]; rfl)]
      rfl
    rw [ha, hne]
    refine iff_of_false (Numeric.not_takenFor ?_ ?_) (by simp)
    · rw [hdecimal]
      nofun
    · rw [hdecimal]
      nofun
  · have hgroups : groups 3 (n.text ++ x :: q).tail = some (afterAddress port (x :: q)) := by
      rw [htail, groups_dot hne hw, groups_address b c d port hx q]
    have hlex : lexeme (n.text ++ x :: q) = ({ type := .address, value := n.text }, (n.text.length : ℤ)) := by
      rw [n.lexeme_text, numericLexeme, hgroups]
      exact addressLexeme_eq _ port hx q
    have hlen := List.length_pos_iff.mpr hne
    rw [ha, List.length_cons]
    refine iff_of_true ⟨_, (lexemes.takes_iff (n.head _) ?_).mpr hlex, rfl⟩ (by omega)
    rintro (h | h) <;> cases h

/-- **Numbers are taken for what they are** just when they are readable. -/
theorem lexedExactly_iff (n : Numeric) : LexedExactly n ↔ Readable n := by
  have hend : Terminator (ch ';') := .inr (.inl rfl)
  cases n with
  | integer d =>
    exact ⟨fun h => (takenFor_integer d hend []).mp (h _ _ hend), fun h x r hx => (takenFor_integer d hx r).mpr h⟩
  | size d p b =>
    exact ⟨fun h => (takenFor_size d p b _).mp (h _ [] hend), fun h x r _ => (takenFor_size d p b _).mpr h⟩
  | time d u =>
    exact ⟨fun h => (takenFor_time d u hend []).mp (h _ _ hend), fun h x r hx => (takenFor_time d u hx r).mpr h⟩
  | address a b c d port =>
    exact ⟨fun h => (takenFor_address a b c d port hend []).mp (h _ _ hend),
      fun h x r hx => (takenFor_address a b c d port hx r).mpr h⟩

/-- Five minutes are not taken for a period of time. -/
theorem not_lexedExactly_minutes : ¬∀ n, LexedExactly n := by
  intro hall
  have hend : Terminator (ch ';') := .inr (.inl rfl)
  have htaken := hall (.time ⟨octets "5", by decide +kernel, by decide +kernel⟩ ⟨ch 'm', by decide⟩) (ch ';') [] hend
  exact ((takenFor_time _ _ hend []).mp htaken).1 rfl

end PgRouter.Config
