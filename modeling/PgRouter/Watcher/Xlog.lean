import Mathlib.Data.List.Basic
import Mathlib.Tactic.IntervalCases
import PgRouter.Foundation.Numeral
import PgRouter.Watcher.Rounds

/-!
# Positions in the transaction log

`xlog` of `watcher.c` reads a position in the transaction log, which PostgreSQL writes as two
hexadecimal numerals with a `/` between them.

## What is proved

The loops of `xlog` take every character for a digit, as far above `0` as the character is above
`'0'`, and they multiply by `0xf`, that is by 15 (`xlogDigit_eq`). So the only strings that are
rejected are those without a `/`. A numeral loses by the smaller base, and gains by its letters,
which are not next to `'9'` (`misread_add_lost`). It is read right just when it gains what it loses;
a number that is too large for its half of the position does not help (`misread_eq_of_modEq`). What
is decided of a string is therefore decided by its digits (`decodedExactly_iff`).
-/

namespace PgRouter.Watcher

open Foundation Wire

/-! ### Hexadecimal numerals -/

/-- A hexadecimal digit, of either case. -/
def IsHexDigit (c : Octet) : Prop := (0x30 ≤ c ∧ c ≤ 0x39) ∨ (0x41 ≤ c ∧ c ≤ 0x46) ∨ (0x61 ≤ c ∧ c ≤ 0x66)

instance (c : Octet) : Decidable (IsHexDigit c) := inferInstanceAs (Decidable (_ ∨ _))

/-- The number that a hexadecimal digit stands for. -/
def hexDigit (c : Octet) : ℕ :=
  if c ≤ 0x39 then c.toNat - 0x30 else if c ≤ 0x46 then c.toNat - 0x41 + 10 else c.toNat - 0x61 + 10

/-- How many characters are between a digit and where it would be if the letters came right behind
`'9'`. -/
def excess (c : Octet) : ℕ := if c ≤ 0x39 then 0 else if c ≤ 0x46 then 7 else 39

/-- A hexadecimal numeral of one to eight digits. -/
structure IsNumeral (s : CString) : Prop where
  /-- There is a digit. -/
  nonempty : s ≠ []
  /-- There are not more than eight. -/
  length_le : s.length ≤ 8
  /-- All are digits. -/
  digits : ∀ c ∈ s, IsHexDigit c

/-- The number that a hexadecimal numeral denotes. -/
def hexValue (s : CString) : ℕ := numeral 16 (s.map hexDigit)

/-- `s` is `h/l`, and nothing but hexadecimal digits are around the `/`. -/
structure IsPosition (s h l : CString) : Prop where
  /-- The parts. -/
  parts : s = h ++ 0x2f :: l
  /-- All before the `/` are digits. -/
  before : ∀ c ∈ h, IsHexDigit c
  /-- All behind the `/` are digits. -/
  behind : ∀ c ∈ l, IsHexDigit c

/-- What `xlog` is for: two numerals of up to eight digits are decoded, and a string that is not a
position is rejected. -/
def DecodedExactly (s : CString) : Prop :=
  ∀ lag : Lag,
    (∀ h l, s = h ++ 0x2f :: l → IsNumeral h → IsNumeral l →
      (xlog s lag).1 = 0 ∧ (xlog s lag).2.toNat = hexValue h * 2 ^ 32 + hexValue l) ∧
    ((¬ ∃ h l, IsPosition s h l) → (xlog s lag).1 ≠ 0 ∧ (xlog s lag).2 = lag)

/-- What a numeral loses: every digit is multiplied with a power of 15 in the place of one of 16. -/
def lost : CString → ℕ
  | [] => 0
  | c :: s => hexDigit c * (16 ^ s.length - 15 ^ s.length) + lost s

/-- What a numeral gains: the letters are counted from `'0'` on. -/
def gained : CString → ℕ
  | [] => 0
  | c :: s => excess c * 15 ^ s.length + gained s

/-! ### The loops -/

/-- What the loops make of a number and a character. -/
def addChar (n : Lag) (p : Octet) : Lag := n * 0xf + UInt64.ofInt (charInt p - charInt 0x30)

/-- **Every character is taken for a digit.** -/
theorem xlogDigit_eq (n : Lag) (p : Octet) : xlogDigit n p = some (addChar n p) := by
  have hzero : charInt 0x30 = 48 := rfl
  have hnine : charInt 0x39 = 57 := rfl
  rw [xlogDigit, if_pos (by omega), addChar]

/-- The second loop reads what is left. -/
theorem xlogLo_eq (lo : Lag) (s : CString) : xlogLo lo s = some (s.foldl addChar lo) := by
  induction s generalizing lo with
  | nil => rfl
  | cons p s ih => rw [xlogLo, xlogDigit_eq, List.foldl_cons, ← ih]

/-- The first loop reads up to the `/`. -/
theorem xlogHi_append {h : CString} (hh : 0x2f ∉ h) (hi : Lag) (l : CString) :
    xlogHi hi (h ++ 0x2f :: l) = some (h.foldl addChar hi, 0x2f :: l) := by
  induction h generalizing hi with
  | nil => rfl
  | cons p h ih =>
    rw [List.mem_cons, not_or] at hh
    rw [List.cons_append, xlogHi, if_neg (Ne.symm hh.1), xlogDigit_eq, List.foldl_cons, ← ih hh.2]

/-- Without a `/` it reads everything. -/
theorem xlogHi_of_notMem {s : CString} (hs : 0x2f ∉ s) (hi : Lag) : xlogHi hi s = some (s.foldl addChar hi, []) := by
  induction s generalizing hi with
  | nil => rfl
  | cons p s ih =>
    rw [List.mem_cons, not_or] at hs
    rw [xlogHi, if_neg (Ne.symm hs.1), xlogDigit_eq, List.foldl_cons, ← ih hs.2]

/-- A string without a `/` is rejected. -/
theorem xlog_of_notMem {s : CString} (hs : 0x2f ∉ s) (lag : Lag) : xlog s lag = (1, lag) := by
  rw [xlog, xlogHi_of_notMem hs]

/-- A string with a `/` is not. -/
theorem xlog_append {h : CString} (hh : 0x2f ∉ h) (l : CString) (lag : Lag) :
    xlog (h ++ 0x2f :: l) lag = ((0 : ℤ), h.foldl addChar 0 <<< 32 ||| l.foldl addChar 0) := by
  simp only [xlog, xlogHi_append hh, xlogLo_eq]

/-! ### What the loops make of a numeral -/

/-- A hexadecimal digit is as far above `'0'` as its number says, and further if it is a letter. -/
theorem hexDigit_cases : ∀ c : Octet, IsHexDigit c →
    charInt c - charInt 0x30 = hexDigit c + excess c ∧
      ((hexDigit c ≤ 9 ∧ excess c = 0) ∨
        (10 ≤ hexDigit c ∧ hexDigit c ≤ 15 ∧ (excess c = 7 ∨ excess c = 39))) :=
  forall_octet (by decide +kernel)

/-- The number that the loops make of a numeral, were it not for the width of the accumulators. -/
def misread (s : CString) : ℕ := numeral 15 (s.map fun c => hexDigit c + excess c)

variable {s : CString}

theorem hexValue_cons (c : Octet) (s : CString) : hexValue (c :: s) = hexDigit c * 16 ^ s.length + hexValue s := by
  rw [hexValue, List.map_cons, numeral_cons, List.length_map, hexValue]

theorem misread_cons (c : Octet) (s : CString) :
    misread (c :: s) = (hexDigit c + excess c) * 15 ^ s.length + misread s := by
  rw [misread, List.map_cons, numeral_cons, List.length_map, misread]

/-- The accumulator holds what the loops make of the numeral, modulo `2 ^ 64`. -/
theorem foldl_addChar_modEq (h : ∀ c ∈ s, IsHexDigit c) : (s.foldl addChar 0).toNat ≡ misread s [MOD 2 ^ 64] := by
  have hstep : ∀ n : Lag, ∀ c ∈ s, (addChar n c).toNat ≡ n.toNat * 15 + (hexDigit c + excess c) [MOD 2 ^ 64] := by
    intro n c hc
    have hof : (UInt64.ofInt (charInt c - charInt 0x30)).toNat = (hexDigit c + excess c) % 2 ^ 64 := by
      have hsmall := (hexDigit_cases c (h c hc)).2
      rw [(hexDigit_cases c (h c hc)).1, UInt64.ofInt, UInt64.toNat_ofNat']
      omega
    rw [addChar, UInt64.toNat_add, UInt64.toNat_mul, hof]
    exact (Nat.mod_modEq _ _).trans ((Nat.mod_modEq _ _).add (Nat.mod_modEq _ _))
  simpa [misread] using foldl_numeral_modEq hstep 0

/-- **What is lost and what is gained** make the difference. -/
theorem misread_add_lost (s : CString) : misread s + lost s = hexValue s + gained s := by
  induction s with
  | nil => rfl
  | cons c s ih =>
    have hpow : 15 ^ s.length + (16 ^ s.length - 15 ^ s.length) = 16 ^ s.length :=
      Nat.add_sub_of_le (Nat.pow_le_pow_left (by decide) _)
    calc misread (c :: s) + lost (c :: s)
      _ = hexDigit c * (15 ^ s.length + (16 ^ s.length - 15 ^ s.length)) + excess c * 15 ^ s.length +
          (misread s + lost s) := by
        rw [misread_cons, lost]
        ring
      _ = hexValue (c :: s) + gained (c :: s) := by
        rw [hpow, ih, hexValue_cons, gained]
        ring

/-- A numeral denotes a number that has no more digits. -/
theorem hexValue_lt (h : ∀ c ∈ s, IsHexDigit c) : hexValue s < 16 ^ s.length := by
  have hlt : hexValue s < 16 ^ (s.map hexDigit).length := numeral_lt fun d hd => by
    obtain ⟨c, hc, rfl⟩ := List.mem_map.mp hd
    have := (hexDigit_cases c (h c hc)).2
    omega
  rwa [List.length_map] at hlt

/-- What the letters make a number greater by is less than three units of the next digit. -/
theorem misread_le (h : ∀ c ∈ s, IsHexDigit c) : misread s ≤ hexValue s + 3 * 15 ^ s.length := by
  induction s with
  | nil => exact Nat.zero_le _
  | cons c s ih =>
    have hrest := ih fun c' hc' => h c' (List.mem_cons_of_mem c hc')
    have hexcess : excess c ≤ 39 := by
      have := (hexDigit_cases c (h c List.mem_cons_self)).2
      omega
    have hpow : hexDigit c * 15 ^ s.length ≤ hexDigit c * 16 ^ s.length :=
      Nat.mul_le_mul_left _ (Nat.pow_le_pow_left (by decide) _)
    have hletter : excess c * 15 ^ s.length ≤ 39 * 15 ^ s.length := Nat.mul_le_mul_right _ hexcess
    rw [misread_cons, hexValue_cons, Nat.add_mul, List.length_cons, pow_succ]
    omega

/-- **A number that is too large does not help**: with up to eight digits it is never off by a
multiple of `2 ^ 32`. -/
theorem misread_eq_of_modEq (h : ∀ c ∈ s, IsHexDigit c) (hlen : s.length ≤ 8)
    (hmod : misread s % 2 ^ 32 = hexValue s % 2 ^ 32) : misread s = hexValue s := by
  by_cases hseven : s.length ≤ 7
  · have hvalue : hexValue s < 16 ^ 7 := (hexValue_lt h).trans_le (Nat.pow_le_pow_right (by decide) hseven)
    have hover : 3 * 15 ^ s.length ≤ 3 * 15 ^ 7 :=
      Nat.mul_le_mul_left _ (Nat.pow_le_pow_right (by decide) hseven)
    have hle := misread_le h
    omega
  · -- the first of eight digits decides: with a small letter the number is above `2 ^ 32`, but not by much
    obtain ⟨c, r, rfl⟩ := List.exists_cons_of_length_pos (show 0 < s.length by omega)
    have hr : r.length = 7 := by
      rw [List.length_cons] at hlen hseven
      omega
    have hdigits : ∀ c' ∈ r, IsHexDigit c' := fun c' hc' => h c' (List.mem_cons_of_mem c hc')
    have hvalue := hexValue_lt hdigits
    have hle := misread_le hdigits
    have hfirst := (hexDigit_cases c (h c List.mem_cons_self)).2
    rw [hr] at hvalue hle
    have hoff : (misread (c :: r) < hexValue (c :: r) + 2 ^ 32 ∧ hexValue (c :: r) < misread (c :: r) + 2 ^ 32) ∨
        (hexValue (c :: r) + 2 ^ 32 < misread (c :: r) ∧ misread (c :: r) < hexValue (c :: r) + 2 * 2 ^ 32) := by
      rw [misread_cons, hexValue_cons, hr]
      omega
    omega

/-- A numeral is read right just when it gains what it loses. -/
theorem misread_eq_iff (s : CString) : misread s = hexValue s ↔ lost s = gained s := by
  have := misread_add_lost s
  omega

/-- The two numbers are put together right just when both are read right. -/
theorem joined_eq_iff {h l : CString} (hh : IsNumeral h) (hl : IsNumeral l) :
    (h.foldl addChar 0 <<< 32 ||| l.foldl addChar 0).toNat = hexValue h * 2 ^ 32 + hexValue l ↔
      lost h = gained h ∧ lost l = gained l := by
  have hlt : ∀ {s}, IsNumeral s → hexValue s < 2 ^ 32 := fun {s} hs =>
    (hexValue_lt hs.digits).trans_le (Nat.pow_le_pow_right (by decide : 0 < 16) hs.length_le)
  have hread : ∀ {s}, IsNumeral s → (s.foldl addChar 0).toNat = misread s := fun {s} hs => by
    have hpow : 3 * 15 ^ s.length ≤ 3 * 15 ^ 8 :=
      Nat.mul_le_mul_left _ (Nat.pow_le_pow_right (by decide) hs.length_le)
    have hle := misread_le hs.digits
    have hvalue := hlt hs
    have hmod : (s.foldl addChar 0).toNat % 2 ^ 64 = misread s % 2 ^ 64 := foldl_addChar_modEq hs.digits
    have := (s.foldl addChar 0).toNat_lt
    omega
  have hor : (h.foldl addChar 0 <<< 32 ||| l.foldl addChar 0).toNat = misread h <<< 32 % 2 ^ 64 ||| misread l := by
    rw [UInt64.toNat_or, UInt64.toNat_shiftLeft, hread hh, hread hl]
    rfl
  have hlowBits : (misread h <<< 32 % 2 ^ 64 ||| misread l) % 2 ^ 32 = misread l % 2 ^ 32 := by
    have hzero : misread h <<< 32 % 2 ^ 64 % 2 ^ 32 = 0 := by
      rw [Nat.shiftLeft_eq]
      omega
    rw [Nat.or_mod_two_pow, hzero, Nat.zero_or]
  have hhighBits : (misread h <<< 32 % 2 ^ 64 ||| misread l) / 2 ^ 32 = misread h % 2 ^ 32 ||| misread l / 2 ^ 32 := by
    have hdiv : misread h <<< 32 % 2 ^ 64 / 2 ^ 32 = misread h % 2 ^ 32 := by
      rw [Nat.shiftLeft_eq]
      omega
    rw [Nat.or_div_two_pow, hdiv]
  have hh32 := hlt hh
  have hl32 := hlt hl
  rw [hor, ← misread_eq_iff, ← misread_eq_iff]
  constructor
  · intro heq
    have hlow : misread l = hexValue l := misread_eq_of_modEq hl.digits hl.length_le (by omega)
    have hdiv : misread l / 2 ^ 32 = 0 := by omega
    rw [hdiv, Nat.or_zero] at hhighBits
    exact ⟨misread_eq_of_modEq hh.digits hh.length_le (by omega), hlow⟩
  · rintro ⟨hhigh, hlow⟩
    have hdiv : misread l / 2 ^ 32 = 0 := by omega
    rw [hdiv, Nat.or_zero] at hhighBits
    omega

/-! ### What is decoded -/

/-- A hexadecimal digit is not a `/`. -/
theorem slash_notMem {h : CString} (hh : ∀ c ∈ h, IsHexDigit c) : 0x2f ∉ h := fun hmem =>
  absurd (hh _ hmem) (by decide)

/-- **A string is decoded as it should be** just when it has no `/`, or is a position whose numerals,
unless one of them is empty or has more than eight digits, gain what they lose. -/
theorem decodedExactly_iff (s : CString) :
    DecodedExactly s ↔
      0x2f ∉ s ∨ ∃ h l, IsPosition s h l ∧
        (IsNumeral h → IsNumeral l → lost h = gained h ∧ lost l = gained l) := by
  by_cases hslash : 0x2f ∈ s
  · obtain ⟨h, l, rfl, hh⟩ := List.eq_append_cons_of_mem hslash
    constructor
    · intro hdecoded
      obtain ⟨hvalue, hrejected⟩ := hdecoded 0
      have hpos : ∃ h' l', IsPosition (h ++ 0x2f :: l) h' l' := by
        by_contra hnone
        exact (hrejected hnone).1 (by rw [xlog_append hh])
      obtain ⟨h', l', hpos⟩ := hpos
      refine .inr ⟨h', l', hpos, fun hh' hl' => ?_⟩
      have hright := (hvalue h' l' hpos.parts hh' hl').2
      rw [hpos.parts, xlog_append (slash_notMem hpos.before)] at hright
      exact (joined_eq_iff hh' hl').mp hright
    · rintro (hnone | ⟨h', l', hpos, hbalance⟩) lag
      · exact absurd hslash hnone
      · refine ⟨fun h₁ l₁ hparts hh₁ hl₁ => ?_, fun hnot => absurd ⟨h', l', hpos⟩ hnot⟩
        obtain ⟨rfl, -, rfl⟩ := (List.append_cons_inj_of_notMem (slash_notMem hpos.before)
          (slash_notMem hpos.behind)).mp (hpos.parts.symm.trans hparts)
        rw [hparts, xlog_append (slash_notMem hh₁.digits)]
        exact ⟨rfl, (joined_eq_iff hh₁ hl₁).mpr (hbalance hh₁ hl₁)⟩
  · refine ⟨fun _ => .inl hslash, fun _ lag => ⟨fun h l hparts => ?_, fun _ => ?_⟩⟩
    · exact absurd (hparts ▸ List.mem_append_right h List.mem_cons_self) hslash
    · rw [xlog_of_notMem hslash]
      exact ⟨one_ne_zero, rfl⟩

/-- `0/10` is decoded as 15. -/
theorem not_decodedExactly : ¬ ∀ s, DecodedExactly s := by
  intro h
  have hdigits : ∀ c ∈ [0x31, 0x30], IsHexDigit c := by decide +kernel
  have hsixteen := ((h [0x30, 0x2f, 0x31, 0x30] 0).1 [0x30] [0x31, 0x30] rfl
    ⟨by decide, by decide +kernel, by decide +kernel⟩ ⟨by decide, by decide, hdigits⟩).2
  exact absurd hsixteen (by decide +kernel)

end PgRouter.Watcher
