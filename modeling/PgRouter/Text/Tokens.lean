import PgRouter.Foundation.Consumer
import PgRouter.Text.Scan

/-!
# Tokens without a lexer

What a lexer delivers depends only on the text in front of it: it skips blanks and comments, and then
delivers a token and advances by some number of octets (`Lexemes.lexeme`), which is not always the number of
those that make the token. So its state is a position (`Lexemes.peek`), and a consumer of tokens, if it ends
with a token that is final, leads to the same result without the lexer (`Lexemes.run_emit`).
-/

namespace PgRouter.Text

open Foundation Wire

universe u v w

variable {φ : Type u} {τ : Type v} [DecidableEq φ]

/-! ### One token -/

/-- What is left of `len` octets if `backup` is called behind them, with `rest` following. -/
def cut (len : ℕ) (rest : List Octet) : ℤ := len - if rest = [] then 1 else 0

theorem cut_of_ne {len : ℕ} {q : List Octet} (h : q ≠ []) : cut len q = len := by rw [cut, if_neg h, sub_zero]

@[simp] theorem cut_nil (len : ℕ) : cut len [] = len - 1 := by rw [cut, if_pos rfl]

theorem cut_add (m n : ℕ) (q : List Octet) : cut (m + n) q = m + cut n q := by
  rw [cut, cut, Nat.cast_add, add_sub_assoc]

theorem cut_le (len : ℕ) (q : List Octet) : cut len q ≤ len := by
  unfold cut
  split_ifs <;> omega

theorem le_cut (len : ℕ) (q : List Octet) : len - 1 ≤ cut len q := by
  unfold cut
  split_ifs <;> omega

/-- The lexer `l` delivers the token of `y` and is where the next one begins, `y.2` octets after `u`. If the
token is final, it does not matter where it is. -/
def Delivers (Final : τ → Prop) (any : φ) (l : Lexer φ) (u : List Octet) (y : τ × ℤ) (x : τ × Lexer φ) : Prop :=
  x.1 = y.1 ∧ (¬Final x.1 → x.2 = Lexer.tokenAt l.src any (u.length + y.2))

/-- So does `emit`. -/
def Emits (R : Rules φ τ) (Final : τ → Prop) (l : Lexer φ) (u : List Octet) (y : τ × ℤ) : Prop :=
  ∃ x, emit R l = some x ∧ Delivers Final R.any l u y x

/-- Where a token starts with `w`, and `r` follows, the lexer takes exactly `w`, as the token `t`. -/
def Takes (R : Rules φ τ) (w r : List Octet) (t : τ) : Prop :=
  ∀ u, emit R (Lexer.tokenAt (u ++ (w ++ r)) R.any u.length) =
    some (t, Lexer.tokenAt (u ++ (w ++ r)) R.any (u ++ w).length)

section

variable {R : Rules φ τ} {Final : τ → Prop} {l m : Lexer φ} {u q : List Octet} {c : Octet} {t : τ}

/-- An octet that makes a token. -/
theorem emits_single (hf : l.f = some R.any) (hpos : l.pos = u.length)
    (hcall : R.call R.any l = (some t, (l.goto (l.pos + 1)).ignore)) : Emits R Final l u (t, 1) := by
  refine ⟨_, emit_of_some hf hcall, rfl, fun _ => ?_⟩
  rw [hpos]
  exact Lexer.goto_ignore hf _

/-- A final token. -/
theorem emits_final (hf : l.f = some R.any) (ht : Final t) (hcall : R.call R.any l = (some t, m)) :
    Emits R Final l u (t, 0) := ⟨_, emit_of_some hf hcall, rfl, fun hfinal => absurd ht hfinal⟩

/-- Another lexer function. -/
theorem emits_sub (h : l.At u (c :: q)) (hf : l.f = some R.any) (hstart : l.start = u.length) {f : φ}
    {g : Lexer φ → τ × Lexer φ} (hsub : ∀ l, R.call f l = l.deliver g) {y : τ × ℤ}
    (hg : ∀ {l : Lexer φ}, l.Within u [c] q → Delivers Final R.any l u y (g l))
    (hcall : R.call R.any l = (none, (l.goto (l.pos + 1)).setF (some f))) : Emits R Final l u y :=
  ⟨_, (emit_of_none hf hcall).trans (emit_of_some rfl (hsub _)), hg ⟨h.step.setF _, hstart⟩⟩

/-- What a quoted string makes that begins with the quote `c`, with `q` following. -/
def quoted (found : List Octet → τ) (error : τ) (c : Octet) (q : List Octet) : τ × ℤ :=
  match afterQuote c false q with
  | some p => (found ((c :: q).take (1 + (q.length - p.length))), (1 + (q.length - p.length) : ℕ))
  | none => (error, 0)

omit [DecidableEq φ] in
/-- A quoted string is found as a whole, with both of its quotes. -/
theorem quoted_closed {c : Octet} {w p : List Octet} (h : afterQuote c false (w ++ c :: p) = some p)
    (found : List Octet → τ) (error : τ) :
    quoted found error c (w ++ c :: p) = (found (c :: (w ++ [c])), ((c :: (w ++ [c])).length : ℤ)) := by
  have hlen : (w ++ c :: p).length - p.length = (w ++ [c]).length := by
    simp only [List.length_append, List.length_cons, List.length_nil]
    omega
  have htake : (w ++ c :: p).take (w ++ [c]).length = w ++ [c] := by rw [List.append_cons w c p, List.take_left]
  rw [quoted, h]
  dsimp only
  rw [hlen, Nat.add_comm, List.take_succ_cons, htake, List.length_cons]

omit [DecidableEq φ] in
/-- `lex_qstring`. -/
theorem delivers_quoted (h : l.Within u [c] q) {found : List Octet → τ} {error : τ} (herror : Final error) (any : φ) :
    Delivers Final any l u (quoted found error c q) (l.lexQstring any found error) := by
  have hany := h.setF (some any)
  have hback : (l.setF (some any)).backup.next = (c, l.setF (some any)) := by
    have hat : (l.setF (some any)).backup.At u (c :: q) := by
      refine ⟨hany.at'.src.trans (List.append_assoc u [c] q), ?_⟩
      rw [Lexer.backup_eq, Lexer.goto_pos, hany.pos]
      simp
    rw [hat.next_cons, Lexer.backup_eq, Lexer.goto_goto, Lexer.goto_pos, sub_add_cancel, Lexer.goto_self]
  rcases hany.at'.toQuote c false with ⟨w, p, rfl, hafter, hquote⟩ | ⟨hafter, hquote⟩
  · have hlen : (w ++ p).length - p.length = w.length := by rw [List.length_append, Nat.add_sub_cancel]
    have hpos : (l.setF (some any)).pos + w.length = u.length + (1 + w.length : ℕ) := by
      rw [hany.pos, List.length_singleton]
      omega
    rw [if_neg Bool.false_ne_true, hpos] at hquote
    simp only [Lexer.lexQstring, hback, hquote, quoted, hafter, if_true, hlen]
    refine ⟨congrArg found ?_, fun _ => Lexer.goto_ignore rfl _⟩
    exact hany.value _
  · rw [if_neg Bool.false_ne_true] at hquote
    simp only [Lexer.lexQstring, hback, hquote, quoted, hafter, Bool.false_eq_true, if_false]
    exact ⟨rfl, fun hfinal => absurd herror hfinal⟩

end

/-- What a lexer with the rules `R` delivers. -/
structure Lexemes (R : Rules φ τ) where
  /-- The octets that are skipped. -/
  blank : Octet → Bool
  /-- The function for comments. -/
  comment : φ
  /-- They are skipped as well. -/
  skips : Skips R blank comment
  /-- With these tokens the lexer is at an end. -/
  Final : τ → Prop
  /-- The token, and by how much the lexer advances, where blanks and comments have been skipped. -/
  lexeme : List Octet → τ × ℤ
  /-- This is what `emit` delivers there. -/
  emits : ∀ {l : Lexer φ} {u r : List Octet}, l.At u r → l.f = some R.any → l.start = u.length →
    (∀ c ∈ r.head?, ¬blank c ∧ c ≠ ch '#') → Emits R Final l u (lexeme r)
  /-- The end of the text is a token. -/
  atEnd : ∀ l : Lexer φ, l.next.1 = 0 → ∃ m, R.call R.any l = (some (lexeme []).1, m)
  /-- It is final. -/
  final_nil : Final (lexeme []).1

namespace Lexemes

variable {R : Rules φ τ} (L : Lexemes R)

/-- `emit` before a token, where no blanks or comments come first. -/
theorem emit_lexeme (u : List Octet) {r : List Octet} (hhead : ∀ c ∈ r.head?, ¬L.blank c ∧ c ≠ ch '#') :
    ∃ m, emit R (Lexer.tokenAt (u ++ r) R.any u.length) = some ((L.lexeme r).1, m) ∧
      (¬L.Final (L.lexeme r).1 → m = Lexer.tokenAt (u ++ r) R.any (u.length + (L.lexeme r).2)) := by
  obtain ⟨⟨t, m⟩, hx, htoken, hgoes⟩ := L.emits (Lexer.at_tokenAt u r R.any) rfl rfl hhead
  obtain rfl : t = (L.lexeme r).1 := htoken
  exact ⟨m, hx, hgoes⟩

/-- Whether exactly `w` is taken can be read off what the lexer delivers. -/
theorem takes_iff {w r : List Octet} {t : τ} (hhead : ∀ c ∈ (w ++ r).head?, ¬L.blank c ∧ c ≠ ch '#')
    (ht : ¬L.Final t) : Takes R w r t ↔ L.lexeme (w ++ r) = (t, (w.length : ℤ)) := by
  constructor
  · intro h
    obtain ⟨m, hemit, hgoes⟩ := L.emit_lexeme [] hhead
    have heq := (h []).symm.trans hemit
    obtain ⟨rfl, rfl⟩ := Prod.mk.inj (Option.some.inj heq)
    have hpos := congrArg Lexer.pos (hgoes ht)
    refine Prod.ext rfl ?_
    simpa [Lexer.tokenAt] using hpos.symm
  · intro h u
    obtain ⟨m, hemit, hgoes⟩ := L.emit_lexeme u hhead
    rw [h] at hemit hgoes
    rw [hemit, hgoes ht, List.length_append, Nat.cast_add]

/-- The token at the position `i`, and the position behind it. -/
def peek (src : List Octet) (i : ℤ) : τ × ℤ :=
  if i < 0 then ((L.lexeme []).1, i)
  else
    let r := skip L.blank false (src.drop i.toNat)
    ((L.lexeme r).1, src.length - r.length + (L.lexeme r).2)

theorem peek_at (u r : List Octet) :
    L.peek (u ++ r) u.length = ((L.lexeme (skip L.blank false r)).1,
      u.length + r.length - (skip L.blank false r).length + (L.lexeme (skip L.blank false r)).2) := by
  rw [peek, if_neg (not_lt.mpr (Int.natCast_nonneg _)), Int.toNat_natCast, List.drop_left, List.length_append,
    Nat.cast_add]

/-- `emit` before a token, with `r` in front. -/
theorem emit_at (u r : List Octet) :
    ∃ m, emit R (Lexer.tokenAt (u ++ r) R.any u.length) = some ((L.peek (u ++ r) u.length).1, m) ∧
      (¬L.Final (L.peek (u ++ r) u.length).1 →
        m = Lexer.tokenAt (u ++ r) R.any (L.peek (u ++ r) u.length).2) := by
  obtain ⟨v, hv⟩ := skip_suffix L.blank false r
  have hlen := congrArg List.length hv
  rw [List.length_append] at hlen
  have hemit := L.skips.emit (b := false) (Lexer.at_tokenAt u r R.any) rfl fun _ => rfl
  have hpos : (u ++ r).length - (skip L.blank false r).length = (u ++ v).length := by
    rw [List.length_append, List.length_append]
    omega
  have hskipped := Lexer.at_tokenAt (u ++ v) (skip L.blank false r) R.any
  rw [List.append_assoc, hv] at hskipped
  have hhead : ∀ c ∈ (skip L.blank false r).head?, ¬L.blank c ∧ c ≠ ch '#' := by
    intro c hc
    obtain ⟨q, hq⟩ := List.head?_eq_some_iff.mp hc
    exact skip_head hq
  obtain ⟨⟨t, m⟩, hx, htoken, hgoes⟩ := L.emits hskipped rfl rfl hhead
  obtain rfl : t = (L.lexeme (skip L.blank false r)).1 := htoken
  rw [L.peek_at]
  refine ⟨m, ?_, fun hfinal => (hgoes hfinal).trans ?_⟩
  · rw [hemit, ← hx, ← hpos]
    rfl
  · have hlength : ((u ++ v).length : ℤ) = u.length + r.length - (skip L.blank false r).length := by
      rw [List.length_append, Nat.cast_add]
      omega
    rw [hlength]
    rfl

omit [DecidableEq φ] in
theorem next_outside {l : Lexer φ} (h : l.pos < 0 ∨ l.src.length ≤ l.pos) : l.next.1 = 0 := by
  unfold Lexer.next
  split_ifs with hlen
  · rfl
  · obtain ⟨i, hi⟩ := Int.eq_negSucc_of_lt_zero (h.resolve_right hlen)
    simp only [hi, Lexer.char]

/-- `emit` before a token, wherever the lexer is. -/
theorem emit_peek (src : List Octet) (i : ℤ) :
    ∃ m, emit R (Lexer.tokenAt src R.any i) = some ((L.peek src i).1, m) ∧
      (¬L.Final (L.peek src i).1 → m = Lexer.tokenAt src R.any (L.peek src i).2) := by
  by_cases hin : 0 ≤ i ∧ i ≤ src.length
  · obtain ⟨k, rfl⟩ := Int.eq_ofNat_of_zero_le hin.1
    have hk : (src.take k).length = k := by
      rw [List.length_take]
      omega
    have hat := L.emit_at (src.take k) (src.drop k)
    rw [List.take_append_drop, hk] at hat
    exact hat
  · have hout : i < 0 ∨ src.length ≤ i := by omega
    have hend : (L.peek src i).1 = (L.lexeme []).1 := by
      rw [peek]
      split_ifs with hneg
      · rfl
      · rw [List.drop_eq_nil_of_le (by omega), skip]
    obtain ⟨m, hm⟩ := L.atEnd (Lexer.tokenAt src R.any i) (next_outside hout)
    rw [hend]
    exact ⟨m, emit_of_some rfl hm, fun hfinal => absurd L.final_nil hfinal⟩

variable {α : Type w} {stop : α → Prop}

/-- A consumer that takes tokens by `emit` takes those at the positions. -/
theorem run_emit {m : Consumer τ α} (h : m.Ends L.Final stop) (src : List Octet) (i : ℤ) :
    ∃ l, m.run (emit R) (Lexer.tokenAt src R.any i) = some ((m.eval (L.peek src) i).1, l) ∧
      (m.trace (emit R) (Lexer.tokenAt src R.any i)).map (fun x => x.2.1) = m.taken (L.peek src) i ∧
      (¬stop (m.eval (L.peek src) i).1 → l = Lexer.tokenAt src R.any (m.eval (L.peek src) i).2) := by
  have hstep : ∀ l i, l = Lexer.tokenAt src R.any i → ∃ m, emit R l = some ((L.peek src i).1, m) ∧
      (¬L.Final (L.peek src i).1 → m = Lexer.tokenAt src R.any (L.peek src i).2) := by
    rintro l i rfl
    exact L.emit_peek src i
  exact h.run_eq hstep rfl

/-! ### What a consumer makes of a text -/

/-- With `r` in front of the lexer the token `t` is delivered, and `r'` is in front of it then. -/
def Next (r : List Octet) (t : τ) (r' : List Octet) : Prop :=
  ∃ v, r = v ++ r' ∧ ∀ u, L.peek (u ++ r) u.length = (t, ((u ++ v).length : ℤ))

/-- With `r` in front of the lexer `m` has the result `a`, and `r'` is in front of it then. -/
def Parses (m : Consumer τ α) (r : List Octet) (a : α) (r' : List Octet) : Prop :=
  ∃ v, r = v ++ r' ∧ ∀ u, m.eval (L.peek (u ++ r)) u.length = (a, ((u ++ v).length : ℤ))

/-- With `r` in front of the lexer `m` has the result `a`. -/
def Results (m : Consumer τ α) (r : List Octet) (a : α) : Prop :=
  ∀ u, (m.eval (L.peek (u ++ r)) u.length).1 = a

variable {L} {m : Consumer τ α} {k : τ → Consumer τ α} {r r' r'' w : List Octet} {a : α} {t : τ}

/-- A token that is `w`. -/
theorem next_of_lexeme (hskip : skip L.blank false r = w ++ r') (h : L.lexeme (w ++ r') = (t, (w.length : ℤ))) :
    L.Next r t r' := by
  obtain ⟨v, hv⟩ := skip_suffix L.blank false r
  rw [hskip, ← List.append_assoc] at hv
  refine ⟨v ++ w, hv.symm, fun u => ?_⟩
  rw [L.peek_at, hskip, h, ← hv]
  refine Prod.ext rfl ?_
  simp only [List.length_append, Nat.cast_add]
  omega

theorem Parses.done (a : α) (r : List Octet) : L.Parses (.done a) r a r :=
  ⟨[], rfl, fun u => by rw [List.append_nil, Consumer.eval_done]⟩

theorem Parses.read (h : L.Next r t r') (hk : L.Parses (k t) r' a r'') : L.Parses (.read k) r a r'' := by
  obtain ⟨v, rfl, hnext⟩ := h
  obtain ⟨w, rfl, heval⟩ := hk
  refine ⟨v ++ w, (List.append_assoc _ _ _).symm, fun u => ?_⟩
  have hrest := heval (u ++ v)
  rw [List.append_assoc, List.append_assoc] at hrest
  rw [Consumer.eval_read, hnext u]
  exact hrest

theorem Parses.bind {β : Type w} {g : α → Consumer τ β} {b : β} (h : L.Parses m r a r') (hg : L.Results (g a) r' b) :
    L.Results (m.bind g) r b := by
  obtain ⟨v, rfl, heval⟩ := h
  intro u
  rw [Consumer.eval_bind, heval u, ← List.append_assoc]
  exact hg (u ++ v)

/-- Nothing is left to be taken. -/
theorem results_final (h : (L.lexeme (skip L.blank false r)).1 = t) (hk : k t = .done a) : L.Results (.read k) r a := by
  intro u
  rw [Consumer.eval_read, L.peek_at, h, hk]
  rfl

/-- What is skipped does not matter. -/
theorem Results.skip (h : L.Results (.read k) r a)
    (hskip : Text.skip L.blank false (w ++ r) = Text.skip L.blank false r) :
    L.Results (.read k) (w ++ r) a := by
  intro u
  have hsame : L.peek (u ++ (w ++ r)) u.length = L.peek (u ++ w ++ r) (u ++ w).length := by
    rw [L.peek_at, L.peek_at, hskip]
    refine Prod.ext rfl ?_
    simp only [List.length_append, Nat.cast_add]
    omega
  rw [Consumer.eval_read, hsame, ← List.append_assoc]
  exact h (u ++ w)

end Lexemes

/-! ### What is skipped -/

theorem skip_blanks {blank : Octet → Bool} {w : List Octet} (h : ∀ c ∈ w, blank c) (r : List Octet) :
    skip blank false (w ++ r) = skip blank false r := by
  induction w with
  | nil => rfl
  | cons c w ih =>
    obtain ⟨hc, hw⟩ := List.forall_mem_cons.mp h
    rw [List.cons_append, skip, if_pos hc, ih hw]

theorem skip_comment (blank : Octet → Bool) {w : List Octet} (h : ∀ c ∈ w, c ≠ 0 ∧ c ≠ newline) (r : List Octet) :
    skip blank true (w ++ newline :: r) = skip blank false r := by
  induction w with
  | nil => rw [List.nil_append, skip, if_pos (.inr rfl)]
  | cons c w ih =>
    obtain ⟨hc, hw⟩ := List.forall_mem_cons.mp h
    rw [List.cons_append, skip, if_neg (not_or.mpr hc), ih hw]

theorem skip_of_token {blank : Octet → Bool} {c : Octet} {r : List Octet} (hc : blank c = false) (hhash : c ≠ ch '#') :
    skip blank false (c :: r) = c :: r := by
  rw [skip, hc, if_neg Bool.false_ne_true, if_neg hhash]

end PgRouter.Text
