import PgRouter.Text.Lexer

/-!
# What a lexer reads

The operations of a lexer in terms of the text in front of it: `l.At u r` says that the lexer is between
the parts `u` and `r` of its text. `next` takes an octet from `r`, `accept_all` the longest part of `r`
that is valid, and so on. At the end of the text `next` does not advance, so there `backup` goes back by
one octet more than `next` has advanced (`Lexer.At.acceptAll`).
-/

namespace PgRouter.Text

open Wire

universe u v

/-! ### The text in front -/

/-- The blanks and comments at the beginning of a text are skipped. `comment` says whether the text begins
within a comment. -/
def skip (blank : Octet → Bool) : Bool → List Octet → List Octet
  | _, [] => []
  | false, c :: r => if blank c then skip blank false r else if c = ch '#' then skip blank true r else c :: r
  | true, c :: r => if c = 0 ∨ c = newline then skip blank false r else skip blank true r

/-- What follows the quote `q` that closes a quoted string, if there is one. `esc` says whether a backslash
comes before the text. -/
def afterQuote (q : Octet) : Bool → List Octet → Option (List Octet)
  | _, [] => none
  | true, _ :: r => afterQuote q false r
  | false, c :: r => if c = 0 then none else if c = q then some r else afterQuote q (c = backslash) r

namespace Lexer

variable {φ : Type u} {l : Lexer φ} {u w r : List Octet} {c : Octet}

/-- The lexer is between the parts `u` and `r` of its text. -/
structure At (l : Lexer φ) (u r : List Octet) : Prop where
  /-- The parts. -/
  src : l.src = u ++ r
  /-- The position. -/
  pos : l.pos = u.length

/-- The lexer at another position. -/
def goto (l : Lexer φ) (pos : ℤ) : Lexer φ := { l with pos := pos }

@[simp] theorem goto_src (l : Lexer φ) (i : ℤ) : (l.goto i).src = l.src := rfl

@[simp] theorem goto_pos (l : Lexer φ) (i : ℤ) : (l.goto i).pos = i := rfl

@[simp] theorem goto_start (l : Lexer φ) (i : ℤ) : (l.goto i).start = l.start := rfl

@[simp] theorem goto_f (l : Lexer φ) (i : ℤ) : (l.goto i).f = l.f := rfl

@[simp] theorem goto_goto (l : Lexer φ) (i j : ℤ) : (l.goto i).goto j = l.goto j := rfl

@[simp] theorem goto_self (l : Lexer φ) : l.goto l.pos = l := rfl

theorem backup_eq (l : Lexer φ) : l.backup = l.goto (l.pos - 1) := rfl

theorem restart_eq (l : Lexer φ) : l.restart = l.goto l.start := rfl

theorem At.move (h : l.At u (w ++ r)) : (l.goto (l.pos + w.length)).At (u ++ w) r :=
  ⟨by rw [goto_src, h.src, List.append_assoc], by rw [goto_pos, h.pos, List.length_append, Nat.cast_add]⟩

theorem At.step (h : l.At u (c :: r)) : (l.goto (l.pos + 1)).At (u ++ [c]) r := At.move (w := [c]) h

theorem At.setF (h : l.At u r) (f : Option φ) : (l.setF f).At u r := ⟨h.src, h.pos⟩

theorem At.ignore (h : l.At u r) : l.ignore.At u r := ⟨h.src, h.pos⟩

/-- `next` at the end of the text. -/
theorem At.next_nil (h : l.At u []) : l.next = (0, l) := by
  have hlen : (l.src.length : ℤ) ≤ l.pos := by rw [h.src, h.pos, List.append_nil]
  rw [next, if_pos hlen]

/-- `next` before it. -/
theorem At.next_cons (h : l.At u (c :: r)) : l.next = (c, l.goto (l.pos + 1)) := by
  have hlen : ¬(l.src.length : ℤ) ≤ l.pos := by
    rw [h.src, h.pos, List.length_append, List.length_cons]
    omega
  have hchar : l.char l.pos = c := by
    rw [h.pos]
    change l.src.getD u.length 0 = c
    rw [h.src, List.getD_eq_getElem?_getD, List.getElem?_append_right le_rfl, Nat.sub_self]
    rfl
  rw [next, if_neg hlen, hchar]
  rfl

/-! ### Loops -/

variable {valid : List Octet}

/-- A valid octet is accepted. -/
theorem At.acceptOne_mem (h : l.At u (c :: r)) (h0 : 0 ∉ valid) (hc : c ∈ valid) :
    l.acceptOne valid = (true, l.goto (l.pos + 1)) := by
  have hne : c ≠ 0 := fun heq => h0 (heq ▸ hc)
  have hchr : strchr valid c = true := by rw [strchr, decide_eq_true hc, Bool.true_or]
  rw [acceptOne, h.next_cons, if_pos ⟨hne, hchr⟩]

/-- An octet that is not is not. -/
theorem At.acceptOne_not_mem (h : l.At u (c :: r)) (hc : c ∉ valid) : l.acceptOne valid = (false, l) := by
  have hchr : ¬(c ≠ 0 ∧ strchr valid c = true) := fun hand => by
    rw [strchr, decide_eq_false hc, decide_eq_false hand.1] at hand
    exact Bool.false_ne_true hand.2
  rw [acceptOne, h.next_cons, if_neg hchr, backup_eq, goto_goto, goto_pos, add_sub_cancel_right, goto_self]

/-- At the end of the text `accept_one` goes back. -/
theorem At.acceptOne_nil (h : l.At u []) (valid : List Octet) : l.acceptOne valid = (false, l.goto (l.pos - 1)) := by
  rw [acceptOne, h.next_nil, if_neg (fun hand => hand.1 rfl), backup_eq]

/-- Only the position changes. -/
theorem next_goto (l : Lexer φ) : ∃ i, l.next.2 = l.goto i := by
  unfold next
  split_ifs
  · exact ⟨l.pos, rfl⟩
  · exact ⟨l.pos + 1, rfl⟩

theorem acceptOne_goto (l : Lexer φ) (valid : List Octet) : ∃ i, (l.acceptOne valid).2 = l.goto i := by
  obtain ⟨i, hi⟩ := l.next_goto
  unfold acceptOne
  split_ifs
  · exact ⟨i, hi⟩
  · exact ⟨i - 1, by rw [hi]; rfl⟩

theorem acceptAll_goto (l : Lexer φ) (valid : List Octet) : ∃ i, (l.acceptAll valid).2 = l.goto i := by
  obtain ⟨j, hj⟩ := l.acceptOne_goto valid
  rw [Lexer.acceptAll]
  by_cases h : (l.acceptOne valid).1 = true
  · obtain ⟨i, hi⟩ := acceptAll_goto (l.acceptOne valid).2 valid
    rw [if_pos h]
    exact ⟨i, hi.trans (by rw [hj]; rfl)⟩
  · rw [if_neg h]
    exact ⟨j, hj⟩
termination_by l.left
decreasing_by exact acceptOne_left h

/-- The octets that `accept_all` takes. If they reach the end of the text, it goes back by one. -/
theorem At.acceptAll (h : l.At u r) (h0 : 0 ∉ valid) :
    l.acceptAll valid = ((r.takeWhile (· ∈ valid)).length,
      l.goto (l.pos + (r.takeWhile (· ∈ valid)).length - if r.dropWhile (· ∈ valid) = [] then 1 else 0)) := by
  induction r generalizing l u with
  | nil =>
    rw [Lexer.acceptAll, h.acceptOne_nil, if_neg Bool.false_ne_true]
    simp
  | cons c r ih =>
    by_cases hc : c ∈ valid
    · have hstep := ih h.step
      rw [Lexer.acceptAll, h.acceptOne_mem h0 hc, if_pos rfl, List.takeWhile_cons_of_pos (by simpa using hc),
        List.dropWhile_cons_of_pos (by simpa using hc)]
      dsimp only
      rw [hstep, goto_goto, goto_pos, List.length_cons, Nat.cast_add, Nat.cast_one]
      refine Prod.ext rfl (congrArg l.goto ?_)
      omega
    · rw [Lexer.acceptAll, h.acceptOne_not_mem hc, if_neg Bool.false_ne_true,
        List.takeWhile_cons_of_neg (by simpa using hc),
        List.dropWhile_cons_of_neg (by simpa using hc), if_neg (List.cons_ne_nil c r)]
      simp

/-- The closing quote is found, or the text ends before it. -/
theorem At.toQuote (h : l.At u r) (q : Octet) (esc : Bool) :
    (∃ w r', r = w ++ r' ∧ afterQuote q esc r = some r' ∧
        (if esc then l.next.2 else l).toQuote q = (true, l.goto (l.pos + w.length))) ∨
      afterQuote q esc r = none ∧ ((if esc then l.next.2 else l).toQuote q).1 = false := by
  induction r generalizing l u esc with
  | nil =>
    have hend : (l.toQuote q).1 = false := by rw [Lexer.toQuote, h.next_nil, if_pos rfl]
    refine .inr ⟨by rw [afterQuote], ?_⟩
    rw [h.next_nil, ite_self]
    exact hend
  | cons c r ih =>
    have hcons : ∀ w : List Octet, (l.goto (l.pos + 1)).goto ((l.goto (l.pos + 1)).pos + w.length) =
        l.goto (l.pos + (c :: w).length) := fun w => by
      rw [goto_goto, goto_pos, List.length_cons, Nat.cast_add, add_assoc, add_comm (1 : ℤ)]
      rfl
    cases esc with
    | true =>
      rw [afterQuote, if_pos rfl, h.next_cons]
      rcases ih h.step false with ⟨w, r', rfl, hsome, hquote⟩ | hnone
      · exact .inl ⟨c :: w, r', rfl, hsome, hquote.trans (Prod.ext rfl (hcons w))⟩
      · exact .inr hnone
    | false =>
      rw [afterQuote, if_neg Bool.false_ne_true, Lexer.toQuote, h.next_cons]
      by_cases h0 : c = 0
      · exact .inr ⟨if_pos h0, by rw [if_pos h0]⟩
      by_cases hq : c = q
      · refine .inl ⟨[c], r, rfl, by rw [if_neg h0, if_pos hq], ?_⟩
        rw [if_neg h0, if_pos hq]
        rfl
      have hrest : (if c = backslash then (l.goto (l.pos + 1)).next.2.toQuote q else (l.goto (l.pos + 1)).toQuote q) =
          (if decide (c = backslash) = true then (l.goto (l.pos + 1)).next.2 else l.goto (l.pos + 1)).toQuote q := by
        by_cases hb : c = backslash
        · rw [if_pos hb, if_pos (decide_eq_true hb)]
        · rw [if_neg hb, if_neg (by simpa using hb)]
      rw [if_neg h0, if_neg hq, if_neg h0, if_neg hq, hrest]
      rcases ih h.step (c = backslash) with ⟨w, r', rfl, hsome, hquote⟩ | hnone
      · exact .inl ⟨c :: w, r', rfl, hsome, hquote.trans (Prod.ext rfl (hcons w))⟩
      · exact .inr hnone

/-! ### Tokens -/

/-- The lexer before a token. -/
def tokenAt (src : List Octet) (any : φ) (i : ℤ) : Lexer φ := ⟨src, i, i, some any⟩

theorem At.tokenAt (h : l.At u r) {any : φ} (hf : l.f = some any) (hstart : l.start = l.pos) :
    l = Lexer.tokenAt l.src any u.length := by
  rcases l with ⟨src, pos, start, f⟩
  cases hf
  cases hstart
  cases h.pos
  rfl

theorem at_tokenAt (u r : List Octet) (any : φ) : (tokenAt (u ++ r) any u.length).At u r := ⟨rfl, rfl⟩

/-- The lexer is within a token, of which it has read `v`. -/
structure Within (l : Lexer φ) (u v r : List Octet) : Prop where
  /-- Where it is. -/
  at' : l.At (u ++ v) r
  /-- Where the token starts. -/
  start : l.start = u.length

variable {v : List Octet}

/-- The value of a token that has `len` octets. -/
theorem Within.value (h : l.Within u v r) (len : ℤ) : (l.goto (u.length + len)).value = (v ++ r).take len.toNat := by
  rw [Lexer.value, goto_src, goto_start, goto_pos, h.start, h.at'.src, Int.toNat_natCast, List.append_assoc,
    List.drop_left, add_sub_cancel_left]

theorem Within.pos (h : l.Within u v r) : l.pos = u.length + v.length := by
  rw [h.at'.pos, List.length_append, Nat.cast_add]

theorem Within.setF (h : l.Within u v r) (f : Option φ) : (l.setF f).Within u v r := ⟨h.at'.setF f, h.start⟩

/-- More of the token is read. -/
theorem Within.move (h : l.Within u v (w ++ r)) : (l.goto (u.length + (v ++ w).length)).Within u (v ++ w) r := by
  have hmove := h.at'.move
  rw [h.pos, add_assoc, ← Nat.cast_add, ← List.length_append, List.append_assoc] at hmove
  exact ⟨hmove, h.start⟩

theorem goto_ignore {any : φ} (hf : l.f = some any) (i : ℤ) : (l.goto i).ignore = tokenAt l.src any i := by
  rcases l with ⟨src, pos, start, f⟩
  cases hf
  rfl

end Lexer

/-! ### `emit` -/

variable {φ : Type u} {τ : Type v} [DecidableEq φ] {R : Rules φ τ} {l m : Lexer φ} {f : φ} {t : τ}

/-- A token is delivered. -/
theorem emit_of_some (hf : l.f = some f) (h : R.call f l = (some t, m)) : emit R l = some (t, m) := by
  rw [emit]
  split
  · rename_i hnone
    rw [hf] at hnone
    cases hnone
  · rename_i g hg
    obtain rfl : f = g := Option.some.inj (hf.symm.trans hg)
    rw [h]

/-- A round of `emit` delivers none. -/
theorem emit_of_none (hf : l.f = some f) (h : R.call f l = (none, m)) : emit R l = emit R m := by
  rw [emit]
  split
  · rename_i hnone
    rw [hf] at hnone
    cases hnone
  · rename_i g hg
    obtain rfl : f = g := Option.some.inj (hf.symm.trans hg)
    rw [h]

/-- The current lexer function does the same in two states. -/
theorem emit_congr (hf : l.f = some f) (hf' : m.f = some f) (h : R.call f l = R.call f m) : emit R l = emit R m := by
  rcases hcall : R.call f l with ⟨_ | t, n⟩
  · rw [emit_of_none hf hcall, emit_of_none hf' (h ▸ hcall)]
  · rw [emit_of_some hf hcall, emit_of_some hf' (h ▸ hcall)]

/-- How the lexer functions skip blanks and comments. -/
structure Skips (R : Rules φ τ) (blank : Octet → Bool) (comment : φ) : Prop where
  /-- A blank. -/
  atBlank : ∀ {l : Lexer φ} {u r : List Octet} {c : Octet}, l.At u (c :: r) → blank c →
    R.call R.any l = R.call R.any (l.goto (l.pos + 1)).ignore
  /-- The beginning of a comment. -/
  atHash : ∀ {l : Lexer φ} {u r : List Octet} {c : Octet}, l.At u (c :: r) → ¬blank c → c = ch '#' →
    R.call R.any l = (none, ((l.goto (l.pos + 1)).setF (some comment)).ignore)
  /-- Within a comment. -/
  inComment : ∀ l, R.call comment l = (none, l.lexComment R.any)

/-- The lexer functions skip what is to be skipped, up to the beginning of a token. -/
theorem Skips.emit {blank : Octet → Bool} {comment : φ} (h : Skips R blank comment) {u r : List Octet} {l : Lexer φ}
    {b : Bool} (hat : l.At u r) (hf : l.f = some (if b then comment else R.any))
    (hstart : b = false → l.start = l.pos) :
    Text.emit R l = Text.emit R (Lexer.tokenAt l.src R.any (l.src.length - (skip blank b r).length : ℕ)) := by
  induction r generalizing l u b with
  | nil =>
    have hlen : l.src.length - (skip blank b []).length = u.length := by
      rw [hat.src, skip, List.append_nil, List.length_nil, Nat.sub_zero]
    rw [hlen]
    cases b with
    | false =>
      have hany : l.f = some R.any := hf
      rw [← hat.tokenAt hany (hstart rfl)]
    | true =>
      have hline : l.lexComment R.any = Lexer.tokenAt l.src R.any u.length := by
        rw [Lexer.lexComment, Lexer.toLineEnd, (hat.setF _).next_nil, if_neg fun hand => hand.1 rfl]
        exact Lexer.At.tokenAt ((hat.setF _).ignore) rfl rfl
      rw [emit_of_none hf (h.inComment l), hline]
  | cons c r ih =>
    cases b with
    | false =>
      have hany : l.f = some R.any := hf
      by_cases hblank : blank c
      · have hskip : skip blank false (c :: r) = skip blank false r := by rw [skip, if_pos hblank]
        rw [hskip]
        have hrest := ih (b := false) hat.step.ignore hany fun _ => rfl
        have hround : Text.emit R l = Text.emit R (l.goto (l.pos + 1)).ignore :=
          emit_congr hany hany (h.atBlank hat hblank)
        exact hround.trans hrest
      · by_cases hhash : c = ch '#'
        · have hskip : skip blank false (c :: r) = skip blank true r := by rw [skip, if_neg hblank, if_pos hhash]
          rw [hskip, emit_of_none hany (h.atHash hat hblank hhash)]
          exact ih (b := true) (hat.step.setF _).ignore rfl fun hb => Bool.noConfusion hb
        · have hskip : skip blank false (c :: r) = c :: r := by rw [skip, if_neg hblank, if_neg hhash]
          have hlen : l.src.length - (c :: r).length = u.length := by
            rw [hat.src, List.length_append, Nat.add_sub_cancel]
          rw [hskip, hlen, ← hat.tokenAt hany (hstart rfl)]
    | true =>
      by_cases hend : c = 0 ∨ c = newline
      · have hskip : skip blank true (c :: r) = skip blank false r := by rw [skip, if_pos hend]
        have hline : l.lexComment R.any = ((l.goto (l.pos + 1)).setF (some R.any)).ignore := by
          rw [Lexer.lexComment, Lexer.toLineEnd, (hat.setF _).next_cons]
          exact congrArg Lexer.ignore (if_neg fun hand => hend.elim hand.1 hand.2)
        rw [hskip, emit_of_none hf (h.inComment l), hline]
        exact ih (b := false) (hat.step.setF _).ignore rfl fun _ => rfl
      · have hskip : skip blank true (c :: r) = skip blank true r := by rw [skip, if_neg hend]
        have hline : l.lexComment R.any = (l.goto (l.pos + 1)).lexComment R.any := by
          rw [Lexer.lexComment, Lexer.toLineEnd, (hat.setF _).next_cons]
          exact congrArg Lexer.ignore (if_pos (not_or.mp hend))
        have hstep : R.call comment l = R.call comment (l.goto (l.pos + 1)) := by
          rw [h.inComment, h.inComment, hline]
        rw [hskip]
        have hcomment : l.f = some comment := hf
        have hrest := ih (b := true) hat.step hf fun hb => Bool.noConfusion hb
        have hround : Text.emit R l = Text.emit R (l.goto (l.pos + 1)) := emit_congr hcomment hcomment hstep
        exact hround.trans hrest

/-- What is left after skipping begins with a token. -/
theorem skip_head {blank : Octet → Bool} {b : Bool} {r q : List Octet} {c : Octet} (h : skip blank b r = c :: q) :
    ¬blank c ∧ c ≠ ch '#' := by
  induction r generalizing b with
  | nil =>
    rw [skip] at h
    cases h
  | cons d r ih =>
    cases b with
    | false =>
      rw [skip] at h
      split_ifs at h with hblank hhash
      · exact ih h
      · exact ih h
      · obtain ⟨rfl, -⟩ := List.cons.inj h
        exact ⟨hblank, hhash⟩
    | true =>
      rw [skip] at h
      split_ifs at h
      · exact ih h
      · exact ih h

/-- It is the end of the text. -/
theorem skip_suffix (blank : Octet → Bool) (b : Bool) (r : List Octet) : skip blank b r <:+ r := by
  induction r generalizing b with
  | nil => rw [skip]
  | cons d r ih =>
    have hcons : ∀ b, skip blank b r <:+ d :: r := fun b => (ih b).trans (List.suffix_cons d r)
    cases b with
    | false =>
      rw [skip]
      split_ifs
      · exact hcons _
      · exact hcons _
      · exact List.suffix_rfl
    | true =>
      rw [skip]
      split_ifs
      · exact hcons _
      · exact hcons _

end PgRouter.Text
