import PgRouter.Authdb.Progress

/-!
# Writing and loading an authentication database

A database that is written with its names and hashes quoted is loaded as it was written (`round_trip`), with
any blank lines and comments between its entries: the lexer and `as_string` undo the quoting
(`afterQuote_escape`, `unquoted_quote`), and each line is a round of `parse`, or is skipped with the token
that follows it (`Writes.results`).
-/

namespace PgRouter.Authdb

open Foundation Wire Text

/-! ### Writing -/

/-- With a backslash before every backslash and every quote `q`. -/
def escape (q : Octet) (s : CString) : List Octet :=
  s.flatMap fun c => if c = q ∨ c = backslash then [backslash, c] else [c]

/-- Between quotes `q`. -/
def quote (q : Octet) (s : CString) : List Octet := q :: (escape q s ++ [q])

/-- Quotes are single or double. -/
def IsQuote (q : Octet) : Prop := q = 0x27 ∨ q = 0x22

/-- What stands between words: blanks, and at least one. -/
def IsGap (w : List Octet) : Prop := w ≠ [] ∧ ∀ c ∈ w, blank c

/-- A line. -/
inductive Line where
  /-- Nothing but blanks. -/
  | blanks (w : List Octet)
  /-- A comment, after blanks. -/
  | comment (w text : List Octet)
  /-- A user name and a hash, with their quotes and what stands between the words. -/
  | entry (user hash : CString) (q q' : Octet) (gap gap' : List Octet)

namespace Line

/-- What is written, up to the newline. -/
def text : Line → List Octet
  | blanks w => w
  | comment w text => w ++ ch '#' :: text
  | entry user hash q q' gap gap' => quote q user ++ (gap ++ (MD5 ++ (gap' ++ quote q' hash)))

/-- The line can be written. -/
def Valid : Line → Prop
  | blanks w => ∀ c ∈ w, blank c
  | comment w text => (∀ c ∈ w, blank c) ∧ ∀ c ∈ text, c ≠ 0 ∧ c ≠ newline
  | entry user hash q q' gap gap' => (0 ∉ user ∧ 0 ∉ hash) ∧ (IsQuote q ∧ IsQuote q') ∧ IsGap gap ∧ IsGap gap'

/-- The entry of a line, if it has one. -/
def pair : Line → Option (CString × CString)
  | entry user hash _ _ _ _ => some (user, hash)
  | _ => none

end Line

/-- The text with these lines. -/
def render (lines : List Line) : List Octet := lines.flatMap fun line => line.text ++ [newline]

/-! ### Quoted strings -/

variable {q c : Octet} {s : CString} {r r' w : List Octet} {p : Parser}

@[simp] theorem escape_nil (q : Octet) : escape q [] = [] := rfl

@[simp] theorem escape_cons (q c : Octet) (s : CString) :
    escape q (c :: s) = (if c = q ∨ c = backslash then [backslash, c] else [c]) ++ escape q s := rfl

theorem IsQuote.ne (h : IsQuote q) :
    q ≠ 0 ∧ q ≠ newline ∧ q ≠ backslash ∧ q ≠ ch '#' ∧ blank q = false ∧ escaped q = q := by
  rcases h with rfl | rfl <;> decide

/-- The closing quote is found. -/
theorem afterQuote_escape (hq : IsQuote q) (hs : 0 ∉ s) (r : List Octet) :
    afterQuote q false (escape q s ++ q :: r) = some r := by
  obtain ⟨h0, -, hback, -⟩ := hq.ne
  induction s with
  | nil => rw [escape_nil, List.nil_append, afterQuote, if_neg h0, if_pos rfl]
  | cons c s ih =>
    obtain ⟨hc, hs⟩ := not_or.mp (fun h => hs (List.mem_cons.mpr h))
    rw [escape_cons]
    split_ifs with hesc
    · rw [List.append_assoc, List.cons_append, List.singleton_append, afterQuote, if_neg (by decide),
        if_neg hback.symm, decide_eq_true rfl, afterQuote, ih hs]
    · obtain ⟨hcq, hcb⟩ := not_or.mp hesc
      rw [List.append_assoc, List.singleton_append, afterQuote, if_neg (Ne.symm hc), if_neg hcq, decide_eq_false hcb,
        ih hs]

theorem unquote_cons (hc : c ≠ backslash) (n : ℕ) (r : List Octet) : unquote (n + 1) (c :: r) = c :: unquote n r := by
  rw [unquote.eq_def]
  exact if_neg hc

/-- What is quoted is found between the quotes. -/
theorem unquote_escape (hq : IsQuote q) (s : CString) (r : List Octet) :
    unquote (escape q s).length (escape q s ++ r) = s := by
  obtain ⟨-, -, hback, -, -, hesc⟩ := hq.ne
  induction s with
  | nil => rw [escape_nil, List.length_nil, unquote]
  | cons c s ih =>
    rw [escape_cons]
    split_ifs with h
    · have hc : escaped c = c := by
        rcases h with rfl | rfl
        · exact hesc
        · rfl
      change unquote ((escape q s).length + 1 + 1) (backslash :: c :: (escape q s ++ r)) = _
      rw [unquote, if_pos rfl, hc, Nat.add_sub_cancel, ih]
    · obtain ⟨-, hcb⟩ := not_or.mp h
      change unquote ((escape q s).length + 1) (c :: (escape q s ++ r)) = _
      rw [unquote_cons hcb, ih]

/-- `as_string` of a quoted string. -/
theorem unquoted_quote (hq : IsQuote q) (hs : 0 ∉ s) : unquoted (quote q s) = s := by
  have hlen : (quote q s).length - 2 = (escape q s).length := by
    rw [quote, List.length_cons, List.length_append, List.length_singleton]
    omega
  rw [unquoted, hlen, quote, List.tail_cons, unquote_escape hq, List.takeWhile_eq_self_iff.mpr]
  intro c hc
  simpa using fun h0 : c = 0 => hs (h0 ▸ hc)

/-- A quoted string is found as a whole. -/
theorem quoted_quote {τ : Type} (hq : IsQuote q) (hs : 0 ∉ s) (found : List Octet → τ) (error : τ) (r : List Octet) :
    quoted found error q (escape q s ++ [q] ++ r) = (found (quote q s), ((quote q s).length : ℤ)) := by
  rw [List.append_assoc, List.singleton_append]
  exact quoted_closed (afterQuote_escape hq hs r) found error

/-! ### Tokens -/

/-- A quoted string is a token. -/
theorem next_quote (hw : ∀ c ∈ w, blank c) (hq : IsQuote q) (hs : 0 ∉ s) (r : List Octet) :
    lexemes.Next (w ++ (quote q s ++ r)) { type := .qstring, value := quote q s } r := by
  obtain ⟨h0, hnewline, -, hhash, hblank, -⟩ := hq.ne
  refine Lexemes.next_of_lexeme (w := quote q s) ((skip_blanks hw _).trans (skip_of_token hblank hhash)) ?_
  change lexeme (q :: (escape q s ++ [q] ++ r)) = _
  simp only [lexeme]
  rw [if_neg h0, if_neg hnewline, if_pos (show q = 0x27 ∨ q = 0x22 from hq), quoted_quote hq hs]

/-- The word `md5`, before a gap. -/
theorem next_md5 (hw : IsGap w) (hgap : ∃ c ∈ r.head?, blank c) :
    lexemes.Next (w ++ (MD5 ++ r)) { type := .word, value := MD5 } r := by
  obtain ⟨c, hc, hblank⟩ := hgap
  obtain ⟨q, rfl⟩ := List.head?_eq_some_iff.mp hc
  have hword : ¬inWord c = true := by
    rw [inWord, blank] at *
    simp only [Bool.and_eq_true] at hblank
    simp [hblank.1]
  have hlen : wordLength (octets "d5" ++ c :: q) = (MD5.length : ℤ) := by
    have hd : inWord (ch 'd') = true := by decide
    have h5 : inWord (ch '5') = true := by decide
    change wordLength (ch 'd' :: ch '5' :: c :: q) = _
    rw [wordLength, List.takeWhile_cons_of_pos hd, List.takeWhile_cons_of_pos h5, List.takeWhile_cons_of_neg hword,
      List.dropWhile_cons_of_pos hd, List.dropWhile_cons_of_pos h5, List.dropWhile_cons_of_neg hword,
      cut_of_ne (List.cons_ne_nil c q)]
    rfl
  refine Lexemes.next_of_lexeme (w := MD5) ((skip_blanks hw.2 _).trans (skip_of_token rfl (by decide))) ?_
  change lexeme (ch 'm' :: (octets "d5" ++ c :: q)) = _
  simp only [lexeme]
  rw [if_neg (by decide), if_neg (by decide), if_neg (by decide), hlen]
  rfl

/-- A newline is a token. -/
theorem next_newline (hw : ∀ c ∈ w, blank c) (r : List Octet) :
    lexemes.Next (w ++ newline :: r) { type := .newline } r := by
  refine Lexemes.next_of_lexeme (w := [newline]) ((skip_blanks hw _).trans (skip_of_token rfl (by decide))) ?_
  change lexeme (newline :: r) = _
  simp only [lexeme]
  rfl

/-! ### Lines -/

/-- An entry. -/
theorem parseTop_entry {user hash : CString} {q q' : Octet} {gap gap' : List Octet}
    (hvalid : (Line.entry user hash q q' gap gap').Valid) (p : Parser) (r : List Octet) :
    lexemes.Parses (parseTop p) ((Line.entry user hash q q' gap gap').text ++ newline :: r) (0, p.newEntry user hash)
      (newline :: r) := by
  obtain ⟨⟨huser, hhash⟩, ⟨hq, hq'⟩, hgap, hgap'⟩ := hvalid
  have hfirst := next_quote (w := []) (fun c hc => absurd hc List.not_mem_nil) hq huser
    (gap ++ (MD5 ++ (gap' ++ (quote q' hash ++ newline :: r))))
  have hhead : ∃ c ∈ (gap' ++ (quote q' hash ++ newline :: r)).head?, blank c := by
    obtain ⟨c, w, rfl⟩ := List.exists_cons_of_ne_nil hgap'.1
    exact ⟨c, rfl, hgap'.2 c List.mem_cons_self⟩
  have hsecond := next_md5 hgap hhead
  have hthird := next_quote hgap'.2 hq' hhash (newline :: r)
  rw [parseTop_eq]
  simp only [Line.text, List.append_assoc]
  refine .read hfirst (.read hsecond (.read hthird ?_))
  dsimp only [afterType, asString]
  rw [unquoted_quote hq huser, unquoted_quote hq' hhash]
  exact .done _ _

/-- A blank line. -/
theorem parseTop_newline (hw : ∀ c ∈ w, blank c) (p : Parser) (r : List Octet) :
    lexemes.Parses (parseTop p) (w ++ newline :: r) (0, p) r := by
  rw [parseTop_eq]
  exact .read (next_newline hw r) (.done _ _)

/-! ### All lines -/

variable {n : ℕ} {p' : Parser} {y : Option (ℤ × Parser)}

/-- A round of `parse`. -/
theorem results_round (hf : p.f = true) (h : lexemes.Parses (parseTop p) r (0, p') r')
    (hrest : lexemes.Results (parse n p') r' y) : lexemes.Results (parse (n + 1) p) r y := by
  rw [parse_true hf]
  refine h.bind ?_
  rw [if_pos rfl]
  exact hrest

/-- The last round. -/
theorem results_end (hf : p.f = true) (n : ℕ) : lexemes.Results (parse (n + 1 + 1) p) [] (some (0, p.stop)) := by
  rw [parse_true hf, parseTop_eq]
  refine Lexemes.results_final (t := { type := .eos }) rfl ?_
  rw [Consumer.done_bind, if_pos rfl, parse_false rfl]

/-- A comment is skipped. -/
theorem results_comment {text : List Octet} (hw : ∀ c ∈ w, blank c) (htext : ∀ c ∈ text, c ≠ 0 ∧ c ≠ newline)
    (hf : p.f = true) (h : lexemes.Results (parse (n + 1) p) r y) :
    lexemes.Results (parse (n + 1) p) (w ++ ch '#' :: text ++ newline :: r) y := by
  have hskip : skip blank false (w ++ ch '#' :: text ++ newline :: r) = skip blank false r := by
    rw [List.append_assoc, skip_blanks hw, List.cons_append, skip, if_neg (by decide), if_pos rfl,
      skip_comment blank htext]
  rw [parse_true hf, parseTop_eq, Consumer.read_bind] at h ⊢
  rw [List.append_cons] at hskip ⊢
  exact h.skip hskip

theorem render_cons (line : Line) (lines : List Line) :
    render (line :: lines) = line.text ++ newline :: render lines := by
  rw [render, List.flatMap_cons, List.append_assoc]
  rfl

/-- The entries of the lines are loaded, if there are enough rounds. -/
theorem results_lines (lines : List Line) (hvalid : ∀ line ∈ lines, line.Valid) (p : Parser) (hf : p.f = true) :
    ∃ n, ∀ k, lexemes.Results (parse (n + k + 1) p) (render lines)
      (some (0, ⟨(lines.filterMap Line.pair).reverse ++ p.entries, false⟩)) := by
  induction lines generalizing p with
  | nil => exact ⟨1, fun k => Nat.add_comm k 1 ▸ results_end hf k⟩
  | cons line lines ih =>
    obtain ⟨hline, hlines⟩ := List.forall_mem_cons.mp hvalid
    simp only [render_cons]
    cases line with
    | blanks w =>
      obtain ⟨n, hn⟩ := ih hlines p hf
      refine ⟨n + 1, fun k => ?_⟩
      rw [Nat.add_right_comm n 1 k]
      exact results_round hf (parseTop_newline hline p _) (hn k)
    | comment w text =>
      obtain ⟨n, hn⟩ := ih hlines p hf
      exact ⟨n, fun k => results_comment hline.1 hline.2 hf (hn k)⟩
    | entry user hash q q' gap gap' =>
      obtain ⟨n, hn⟩ := ih hlines (p.newEntry user hash) hf
      refine ⟨n + 1 + 1, fun k => ?_⟩
      have hround := results_round hf (parseTop_entry hline p (render lines))
        (results_round hf (parseTop_newline (w := []) (fun c hc => absurd hc List.not_mem_nil) _ _) (hn k))
      have hrounds : n + 1 + 1 + k + 1 = n + k + 1 + 1 + 1 := by omega
      rw [List.filterMap_cons_some (f := Line.pair) (b := (user, hash)) rfl, List.reverse_cons, List.append_assoc,
        hrounds]
      exact hround

/-- The result of `parse` does not depend on the number of rounds, if it has one. -/
theorem parseText_of_results {text : List Octet} {x : ℤ × Parser}
    (h : ∃ n, ∀ k, lexemes.Results (parse (n + k + 1) parserInit) text (some x)) : parseText text = some x := by
  obtain ⟨n, hn⟩ := h
  obtain ⟨x', hx'⟩ := exists_run text
  obtain ⟨l, hl⟩ := hx' 0
  obtain ⟨m, hm⟩ := hx' (n + 1)
  have hrounds : text.length + 2 + (n + 1) = n + (text.length + 2) + 1 := by omega
  obtain ⟨i, hi, -⟩ := lexemes.run_emit (parse_ends (text.length + 2 + (n + 1)) parserInit) text 0
  have hresult := hn (text.length + 2) []
  rw [← hrounds] at hresult
  have hsame : some x = some x' := by
    rw [← hresult]
    exact (Prod.mk.inj (Option.some.inj (hi.symm.trans hm))).1
  rw [hsame, parseText, hl]
  rfl

/-- The database that is written is loaded, in the same order. Then the hash of the first entry of a user is
found, and none for a name that has no entry. -/
theorem round_trip (c : Context) (entries : List (CString × CString)) (lines : List Line)
    (hvalid : ∀ line ∈ lines, line.Valid) (hentries : lines.filterMap Line.pair = entries) :
    ∃ c', pgrAuthdb c (render lines) = some (0, c') ∧ c' = { c with authdb := entries } ∧
      (∀ pre user hash post, entries = pre ++ (user, hash) :: post → user ∉ pre.map Prod.fst →
        pgrAuthFind c' user = some hash) ∧
      ∀ user, user ∉ entries.map Prod.fst → pgrAuthFind c' user = none := by
  subst hentries
  have hparse := parseText_of_results (results_lines lines hvalid parserInit rfl)
  refine ⟨_, ?_, rfl, ?_, ?_⟩
  · simp only [pgrAuthdb, hparse, parserInit, List.append_nil, List.reverse_reverse, Option.bind_eq_bind,
      Option.bind_some]
    rfl
  · intro pre user hash post hsplit hfirst
    have hpre : pre.find? (fun e => e.1 = user) = none := by
      refine List.find?_eq_none.mpr fun e he hname => ?_
      exact hfirst (List.mem_map.mpr ⟨e, he, by simpa using hname⟩)
    have hfind : ((user, hash) :: post).find? (fun e => e.1 = user) = some (user, hash) :=
      List.find?_cons_of_pos (decide_eq_true rfl)
    rw [pgrAuthFind, hsplit, List.find?_append, hpre, Option.none_or, hfind]
    rfl
  · intro user hnone
    rw [pgrAuthFind, List.find?_eq_none.mpr]
    · rfl
    · intro e he hname
      exact hnone (List.mem_map.mpr ⟨e, he, by simpa using hname⟩)

/-- A comment, and two entries of one user with a quote in the name. -/
def sampleLines : List Line :=
  [.comment [] (octets " users"), .entry (octets "o'b") (octets "1") 0x27 0x22 [ch ' '] [ch ' ', 0x09], .blanks [],
    .entry (octets "o'b") (octets "2") 0x22 0x27 [ch ' '] [ch ' ']]

theorem round_trip_sample :
    ∃ c', pgrAuthdb .zero (render sampleLines) = some (0, c') ∧ pgrAuthFind c' (octets "o'b") = some (octets "1") ∧
      pgrAuthFind c' (octets "x") = none := by
  have hvalid : ∀ line ∈ sampleLines, line.Valid := by
    have hgap : IsGap [ch ' '] := ⟨by decide +kernel, by decide +kernel⟩
    have hgap' : IsGap [ch ' ', 0x09] := ⟨by decide +kernel, by decide +kernel⟩
    intro line hline
    simp only [sampleLines, List.mem_cons, List.not_mem_nil, or_false] at hline
    rcases hline with rfl | rfl | rfl | rfl
    · exact ⟨by decide +kernel, by decide +kernel⟩
    · exact ⟨⟨by decide +kernel, by decide +kernel⟩, ⟨.inl rfl, .inr rfl⟩, hgap, hgap'⟩
    · exact fun c hc => absurd hc List.not_mem_nil
    · exact ⟨⟨by decide +kernel, by decide +kernel⟩, ⟨.inr rfl, .inl rfl⟩, hgap, hgap⟩
  obtain ⟨c', hload, -, hfirst, hnone⟩ := round_trip .zero
    [(octets "o'b", octets "1"), (octets "o'b", octets "2")] sampleLines hvalid rfl
  exact ⟨c', hload, hfirst [] _ _ _ rfl List.not_mem_nil, hnone _ (by decide +kernel)⟩

end PgRouter.Authdb
