import PgRouter.Text.Tokens

/-!
# A newline behind a text

What becomes of the functions of a text when a newline is put behind it: of what is skipped, of a part that
ends before the first octet that is not valid, and of a quoted string.
-/

namespace PgRouter.Text

open Wire

universe v

variable {blank : Octet → Bool} {b : Bool} {r q : List Octet} {c : Octet}

/-! ### What is skipped -/

/-- What comes behind a token is not skipped. -/
theorem skip_append (h : skip blank b r ≠ []) (w : List Octet) : skip blank b (r ++ w) = skip blank b r ++ w := by
  induction r generalizing b with
  | nil =>
    rw [skip] at h
    exact absurd rfl h
  | cons c r ih =>
    cases b with
    | false =>
      rw [List.cons_append, skip, skip]
      rw [skip] at h
      split_ifs at h ⊢
      · exact ih h
      · exact ih h
      · rfl
    | true =>
      rw [List.cons_append, skip, skip]
      rw [skip] at h
      split_ifs at h ⊢
      · exact ih h
      · exact ih h

/-- What comes behind a text that is skipped is skipped in the same way, maybe within a comment. -/
theorem exists_skip_append (h : skip blank b r = []) (w : List Octet) :
    ∃ b', skip blank b (r ++ w) = skip blank b' w := by
  induction r generalizing b with
  | nil => exact ⟨b, rfl⟩
  | cons c r ih =>
    cases b with
    | false =>
      rw [List.cons_append, skip]
      rw [skip] at h
      split_ifs at h ⊢
      · exact ih h
      · exact ih h
    | true =>
      rw [List.cons_append, skip]
      rw [skip] at h
      split_ifs at h ⊢
      · exact ih h
      · exact ih h

/-! ### The first octets -/

theorem takeWhile_append_newline {p : Octet → Bool} (h : p newline = false) (r : List Octet) :
    (r ++ [newline]).takeWhile p = r.takeWhile p := by
  induction r with
  | nil => exact List.takeWhile_cons_of_neg (by rw [h]; exact Bool.false_ne_true)
  | cons c r ih => rw [List.cons_append, List.takeWhile_cons, List.takeWhile_cons, ih]

theorem dropWhile_append_newline {p : Octet → Bool} (h : p newline = false) (r : List Octet) :
    (r ++ [newline]).dropWhile p = r.dropWhile p ++ [newline] := by
  induction r with
  | nil => exact List.dropWhile_cons_of_neg (by rw [h]; exact Bool.false_ne_true)
  | cons c r ih =>
    rw [List.cons_append, List.dropWhile_cons, List.dropWhile_cons, ih]
    split_ifs <;> rfl

theorem drop_append_newline {src : List Octet} {i : ℤ} (hi : i ≤ src.length) :
    (src ++ [newline]).drop i.toNat = src.drop i.toNat ++ [newline] := List.drop_append_of_le_length (by omega)

theorem cut_append_newline (len : ℕ) (r : List Octet) : cut len (r ++ [newline]) = len :=
  cut_of_ne (List.append_ne_nil_of_right_ne_nil r (List.cons_ne_nil newline []))

/-! ### Quoted strings -/

theorem afterQuote_append_newline (hc : c ≠ newline) (esc : Bool) (r : List Octet) :
    afterQuote c esc (r ++ [newline]) = (afterQuote c esc r).map (· ++ [newline]) := by
  induction r generalizing esc with
  | nil =>
    cases esc with
    | true => rfl
    | false =>
      have hend : afterQuote c false [newline] = none := by
        rw [afterQuote, if_neg (by decide), if_neg hc.symm, afterQuote]
      exact hend
  | cons d r ih =>
    cases esc with
    | true =>
      rw [List.cons_append, afterQuote, afterQuote]
      exact ih false
    | false =>
      rw [List.cons_append, afterQuote, afterQuote]
      split_ifs
      · rfl
      · rfl
      · exact ih _

theorem afterQuote_suffix {esc : Bool} (h : afterQuote c esc r = some q) : q.length ≤ r.length := by
  induction r generalizing esc with
  | nil =>
    rw [afterQuote] at h
    cases h
  | cons d r ih =>
    rw [List.length_cons]
    cases esc with
    | true =>
      rw [afterQuote] at h
      exact (ih h).trans (Nat.le_succ _)
    | false =>
      rw [afterQuote] at h
      split_ifs at h
      · cases h
        exact Nat.le_succ _
      · exact (ih h).trans (Nat.le_succ _)

/-- A quoted string is not affected, nor is one that is not closed. -/
theorem quoted_append_newline {τ : Type v} (found : List Octet → τ) (error : τ) (hc : c ≠ newline) (q : List Octet) :
    quoted found error c (q ++ [newline]) = quoted found error c q := by
  rw [quoted, quoted, afterQuote_append_newline hc]
  cases hq : afterQuote c false q with
  | none => rfl
  | some p =>
    have hle := afterQuote_suffix hq
    have hlen : (q ++ [newline]).length - (p ++ [newline]).length = q.length - p.length := by
      rw [List.length_append, List.length_append]
      omega
    dsimp only [Option.map_some]
    rw [hlen, ← List.cons_append, List.take_append_of_le_length]
    rw [List.length_cons]
    omega

end PgRouter.Text
