import Mathlib.Data.List.Find
import PgRouter.Config.Lexeme

/-!
# Keywords

`lex_bareword` takes the longest run of word characters and compares it with the keywords, one after the other, by
`strncasecmp` with the length of the run. So the run is compared with the beginning of a keyword, and what it finds
is the first keyword that begins with the run.

## What is proved

A run is a keyword just when it is the spelling of one, and a bareword otherwise, unless it is an abbreviation: the
beginning of a keyword, and not one itself (`recognised_iff`). An abbreviation is taken for a keyword.
-/

namespace PgRouter.Config

open Wire Text

/-- A text in lower case. -/
def lower (w : List Octet) : List Octet := w.map tolower

/-- The first characters of a text, as many as `w` has, are those of `w` but for the case. -/
theorem strncasecmp_eq_zero_iff {w s : List Octet} (hw : ∀ c ∈ w, c ≠ 0) :
    strncasecmp (w ++ [0]) (s ++ [0]) w.length = 0 ↔ lower w <+: lower s := by
  induction w generalizing s with
  | nil => exact iff_of_true (by cases s <;> rfl) List.nil_prefix
  | cons a w ih =>
    obtain ⟨ha, hw⟩ := List.forall_mem_cons.mp hw
    have hpos := tolower_ne_zero ha
    cases s with
    | nil =>
      refine iff_of_false (fun h => ?_) (fun h => by simp [lower] at h)
      have hd : ((tolower a).toNat : ℤ) - (tolower 0).toNat ≠ 0 := by
        rw [show (tolower 0).toNat = 0 from rfl]
        omega
      rw [List.cons_append, List.nil_append, List.length_cons, strncasecmp, if_pos (.inl hd)] at h
      exact hd h
    | cons b s =>
      have hcons : lower (a :: w) <+: lower (b :: s) ↔ tolower a = tolower b ∧ lower w <+: lower s := by
        simp only [lower, List.map_cons, List.cons_prefix_cons]
      rw [hcons, List.cons_append, List.cons_append, List.length_cons, strncasecmp]
      by_cases hab : tolower a = tolower b
      · have hd : ¬(((tolower a).toNat : ℤ) - (tolower b).toNat ≠ 0 ∨ a = 0) := by
          rw [hab, sub_self]
          exact not_or.mpr ⟨not_not.mpr rfl, ha⟩
        rw [if_neg hd, ih hw]
        exact (and_iff_right hab).symm
      · have hd : ((tolower a).toNat : ℤ) - (tolower b).toNat ≠ 0 := fun h =>
          hab (UInt8.toNat_inj.mp (by omega))
        rw [if_pos (.inl hd)]
        exact iff_of_false hd fun h => hab h.1

/-- The keywords are spelled in lower case. -/
theorem lower_keyword : ∀ k ∈ KEYWORDS, lower k.2 = k.2 := by decide

/-- `lex_bareword` finds the first keyword that begins with the word. -/
theorem findKeyword_eq {w : List Octet} (hw : ∀ c ∈ w, c ≠ 0) :
    findKeyword w = (KEYWORDS.find? fun k => (lower w).isPrefixOf k.2).map Prod.fst := by
  rw [findKeyword, List.find?_congr fun k hk => ?_]
  have hiff := strncasecmp_eq_zero_iff (s := k.2) hw
  rw [lower_keyword k hk, ← List.isPrefixOf_iff_prefix] at hiff
  exact Bool.eq_iff_iff.mpr (decide_eq_true_iff.trans hiff)

/-- No keyword comes behind one that begins with it. -/
theorem find?_keyword : ∀ k ∈ KEYWORDS, KEYWORDS.find? (fun k' => k.2.isPrefixOf k'.2) = some k := by decide

/-- A word that is a keyword is found. -/
theorem findKeyword_spelled {w : List Octet} (hw : ∀ c ∈ w, c ≠ 0) {k : Keyword × List Octet} (hk : k ∈ KEYWORDS)
    (heq : lower w = k.2) : findKeyword w = some k.1 := by
  rw [findKeyword_eq hw, heq, find?_keyword k hk, Option.map_some]

/-- A word with which no keyword begins is not found. -/
theorem findKeyword_eq_none {w : List Octet} (hw : ∀ c ∈ w, c ≠ 0) :
    findKeyword w = none ↔ ∀ k ∈ KEYWORDS, ¬lower w <+: k.2 := by
  rw [findKeyword_eq hw, Option.map_eq_none_iff, List.find?_eq_none]
  simp only [List.isPrefixOf_iff_prefix]

/-! ### Words -/

/-- A run of word characters that begins with a letter or a slash. -/
structure IsWord (w : List Octet) : Prop where
  /-- How it begins. -/
  first : ∃ c ∈ w.head?, isalpha c ∨ c = ch '/'
  /-- It consists of word characters. -/
  all : ∀ c ∈ w, c ∈ WORD

set_option maxRecDepth 4000 in
/-- A letter begins a word, and no number. -/
theorem letter_begins : ∀ c : Octet, isalpha c ∨ c = ch '/' → ¬isdigit c ∧ (isalnum c ∨ c = ch '/') :=
  forall_octet (by decide)

theorem IsWord.ne_zero {w : List Octet} (h : IsWord w) : ∀ c ∈ w, c ≠ 0 :=
  fun c hc h0 => zero_not_mem_word (h0 ▸ h.all c hc)

/-- A word that ends before `x` is what the lexer finds. -/
theorem IsWord.lexeme_eq {w : List Octet} (h : IsWord w) {x : Octet} (hx : x ∉ WORD) (r : List Octet) :
    lexeme (w ++ x :: r) = (match findKeyword w with
      | some K => { type := .keyword K }
      | none => { type := .bareword, value := w }, (w.length : ℤ)) := by
  obtain ⟨c, hc, hfirst⟩ := h.first
  obtain ⟨q, rfl⟩ := List.head?_eq_some_iff.mp hc
  obtain ⟨hdigit, hword⟩ := letter_begins c hfirst
  have hq : ∀ c ∈ q, c ∈ WORD := (List.forall_mem_cons.mp h.all).2
  have htake : (q ++ x :: r).takeWhile (· ∈ WORD) = q := by
    rw [List.takeWhile_append_of_pos (by simpa using hq), List.takeWhile_cons_of_neg (by simpa using hx),
      List.append_nil]
  have hdrop : (q ++ x :: r).dropWhile (· ∈ WORD) = x :: r := by
    rw [List.dropWhile_append_of_pos (by simpa using hq), List.dropWhile_cons_of_neg (by simpa using hx)]
  have hlen : cut (1 + q.length) (x :: r) = ((c :: q).length : ℤ) := by
    rw [cut_of_ne (List.cons_ne_nil x r), List.length_cons]
    omega
  rw [List.cons_append, lexeme_of_value (.inr (hword.imp_right .inl)), if_neg hdigit, if_pos hword, wordLexeme,
    List.tail_cons, htake, hdrop, hlen, Int.toNat_natCast, ← List.cons_append, List.take_left]
  cases findKeyword (c :: q) with
  | some K => rfl
  | none => exact Prod.ext (congrArg (Token.mk _ · _ _) (by rw [Int.toNat_natCast, List.take_left])) rfl

/-- So it is taken as it is found. -/
theorem IsWord.takes_iff {w : List Octet} (h : IsWord w) {x : Octet} (hx : x ∉ WORD) (r : List Octet) {t : Token}
    (ht : ¬Final t) : Takes rules w (x :: r) t ↔ t = match findKeyword w with
      | some K => { type := .keyword K }
      | none => { type := .bareword, value := w } := by
  obtain ⟨c, hc, hfirst⟩ := h.first
  have hbegins := (begins_value c (.inr ((letter_begins c hfirst).2.imp_right .inl))).1
  obtain ⟨q, rfl⟩ := List.head?_eq_some_iff.mp hc
  have hhead : ∀ d ∈ ((c :: q) ++ x :: r).head?, ¬isspace d ∧ d ≠ ch '#' := by
    rintro d hd
    obtain rfl : c = d := Option.some.inj hd
    exact hbegins
  have hiff := lexemes.takes_iff hhead ht
  rw [show lexemes.lexeme = lexeme from rfl, h.lexeme_eq hx r, Prod.mk.injEq, and_iff_left rfl] at hiff
  exact hiff.trans eq_comm

/-! ### What is recognised -/

/-- The word `w` is a keyword just when it is the spelling of one, and a bareword otherwise. -/
def Recognised (w : List Octet) : Prop :=
  ∀ x r, x ∉ WORD → ∃ t, Takes rules w (x :: r) t ∧ (∀ k ∈ KEYWORDS, t.type = .keyword k.1 ↔ lower w = lower k.2) ∧
    ((∀ k ∈ KEYWORDS, lower w ≠ lower k.2) → t = { type := .bareword, value := w })

/-- The word is the beginning of a keyword, and not one itself. -/
def Abbreviates (w : List Octet) : Prop :=
  (∃ k ∈ KEYWORDS, lower w <+: k.2) ∧ ∀ k ∈ KEYWORDS, lower w ≠ k.2

instance (w : List Octet) : Decidable (Abbreviates w) := inferInstanceAs (Decidable (_ ∧ _))

/-- Two keywords are not spelled alike, and a keyword has one spelling. -/
theorem keyword_inj : ∀ k ∈ KEYWORDS, ∀ k' ∈ KEYWORDS, k.1 = k'.1 ↔ k.2 = k'.2 := by decide

/-- **Keywords are recognised exactly**, but for abbreviations. -/
theorem recognised_iff {w : List Octet} (h : IsWord w) : Recognised w ↔ ¬Abbreviates w := by
  have hend : (0 : Octet) ∉ WORD := zero_not_mem_word
  constructor
  · rintro hrec ⟨⟨k, hk, hprefix⟩, hnone⟩
    obtain ⟨t, htakes, -, hbare⟩ := hrec 0 [] hend
    obtain rfl := hbare fun k hk heq => hnone k hk (heq.trans (lower_keyword k hk))
    rw [h.takes_iff hend [] (by rintro (h | h) <;> cases h)] at htakes
    cases hfind : findKeyword w with
    | none => exact (findKeyword_eq_none h.ne_zero).mp hfind k hk hprefix
    | some K =>
      rw [hfind] at htakes
      cases congrArg Token.type htakes
  · intro hno x r hx
    by_cases hkey : ∃ k ∈ KEYWORDS, lower w = k.2
    · obtain ⟨k, hk, heq⟩ := hkey
      refine ⟨{ type := .keyword k.1 }, ?_, fun k' hk' => ?_, fun hnone => ?_⟩
      · rw [h.takes_iff hx r (by rintro (h | h) <;> cases h), findKeyword_spelled h.ne_zero hk heq]
      · rw [lower_keyword k' hk', heq, ← keyword_inj k hk k' hk', TokenType.keyword.injEq]
      · exact absurd (heq.trans (lower_keyword k hk).symm) (hnone k hk)
    · have hnone : findKeyword w = none := (findKeyword_eq_none h.ne_zero).mpr fun k hk hprefix =>
        hno ⟨⟨k, hk, hprefix⟩, fun k hk heq => hkey ⟨k, hk, heq⟩⟩
      refine ⟨{ type := .bareword, value := w }, ?_, fun k hk => iff_of_false nofun fun heq => ?_, fun _ => rfl⟩
      · rw [h.takes_iff hx r (by rintro (h | h) <;> cases h), hnone]
      · exact hkey ⟨k, hk, heq.trans (lower_keyword k hk)⟩

/-- Upper case does not matter. -/
theorem recognised_on : Recognised (octets "ON") :=
  (recognised_iff ⟨⟨ch 'O', rfl, by decide⟩, by decide +kernel⟩).mpr (by decide +kernel)

/-- A database named `data` is taken for the keyword `database`. -/
theorem not_recognised_data : ¬∀ w, IsWord w → Recognised w := by
  intro hall
  have hword : IsWord (octets "data") := ⟨⟨ch 'd', rfl, by decide⟩, by decide +kernel⟩
  obtain ⟨t, htakes, -, hbare⟩ := hall _ hword (ch ';') [] (by decide +kernel)
  obtain rfl := hbare (by decide +kernel)
  rw [hword.takes_iff (by decide +kernel) [] (by rintro (h | h) <;> cases h)] at htakes
  exact absurd htakes (by decide +kernel)

end PgRouter.Config
