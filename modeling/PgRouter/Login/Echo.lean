import Mathlib.Data.List.GetD
import Mathlib.Tactic.IntervalCases
import PgRouter.Wire.Stream

/-!
# Replies among the messages

`pgr_conn_accept` appends its replies to the buffer that it reads the messages of the client into, and
sends what is first in it. So the buffer may come to hold replies, and what follows them; these are
taken for messages of the client in their turn. This module is about what becomes of a buffer when
nothing is read any more: a message is dropped, or dropped and answered with a request for a password,
and what is then first in the buffer is sent, that is dropped too (`Echoes`).

## What is proved

This cannot go on forever (`echoes_wf`). A message of size `0` stays where it is, and the requests for
a password pile up behind it until there is no room. Other messages move the front of the buffer on,
until only requests for a password are left in it. They are read at thirteen places, according to where
the message before has ended: at some of them there is no message, and at the others more is dropped
than is appended, or a request for a password is reached.
-/

namespace PgRouter.Login

open Foundation Wire

/-- The request for a password with the salt `salt`. -/
def challengeText (salt : Vector Octet 4) : List Octet := [0x52, 0, 0, 0, 0xc, 0, 0, 0, 0x5] ++ salt.toList

@[simp] theorem length_challengeText (salt : Vector Octet 4) : (challengeText salt).length = 13 := by
  simp [challengeText]

/-- What becomes of the contents of the buffer, when nothing is read. -/
inductive Echoes (salt : Vector Octet 4) (w : List Octet) : List Octet → Prop
  /-- A message is dropped. -/
  | dropped (long : 5 ≤ w.length) (size : 0 < frameSize w) (head : w.head? ≠ some 0x52) :
      Echoes salt w (beyond w)
  /-- A message is dropped, and a request for a password is appended; then the first message is
  dropped. -/
  | answered (head : w.head? = some 1 ∨ (w.head? = some 0 ∧ 5 ≤ w.length ∧ (frameSize w ≤ 3 ∨ 9 ≤ frameSize w)))
      (room : (beyond w).length + 13 ≤ 512)
      (whole : frameSize (beyond w ++ challengeText salt) ≤ (beyond w).length + 13) :
      Echoes salt w (beyond (beyond w ++ challengeText salt))

/-! ### Requests for a password -/

variable (salt : Vector Octet 4)

/-- Requests for a password, one behind the other. -/
def challenges (i : ℕ) : Octet := (challengeText salt).getD (i % 13) 0

/-- A request for a password behind others. -/
theorem slice_challenges {p q : ℕ} (h : p ≤ q) (hq : q % 13 = 0) :
    slice (challenges salt) p q ++ challengeText salt = slice (challenges salt) p (q + 13) := by
  have hone : slice (challenges salt) q (q + 13) = challengeText salt := by
    refine List.ext_getElem (by simp) fun i hi _ => ?_
    have hi' : i < 13 := by simpa using hi
    have hmod : (q + i) % 13 = i := by omega
    have hget := getElem?_slice (challenges salt) (i := q) (j := q + 13) (n := i) (by omega)
    rw [List.getElem?_eq_getElem hi, Option.some_inj] at hget
    rw [hget, challenges, hmod, List.getD_eq_getElem _ _ (by simpa using hi')]
  rw [← slice_append _ h (Nat.le_add_right q 13), hone]

/-- The size of the message that begins at place `j` of a request for a password, if that is followed by
another one. -/
def sizeAt (a b c d : Octet) : ℕ → ℕ
  | 0 => be24 0 0 0xc + 1
  | 1 => be24 0 0 0xc
  | 2 => be24 0 0xc 0
  | 3 => be24 0xc 0 0
  | 4 => be24 0 0 5 + 1
  | 5 => be24 0 0 5
  | 6 => be24 0 5 a
  | 7 => be24 5 a b
  | 8 => be24 b c d + 1
  | 9 => if a = 0 then be24 b c d else be24 c d 0x52 + 1
  | 10 => if b = 0 then be24 c d 0x52 else be24 d 0x52 0 + 1
  | 11 => if c = 0 then be24 d 0x52 0 else be24 0x52 0 0 + 1
  | _ => if d = 0 then be24 0x52 0 0 else be24 0 0 0 + 1

/-- The octet at place `j` of a request for a password. -/
def octetAt (a b c d : Octet) (j : ℕ) : Octet := [0x52, 0, 0, 0, 0xc, 0, 0, 0, 0x5, a, b, c, d].getD j 0

theorem challenges_eq {a b c d : Octet} (hs : salt = #v[a, b, c, d]) (i : ℕ) :
    challenges salt i = octetAt a b c d (i % 13) := by
  subst hs
  rfl

/-- The size of a message among requests for a password. -/
theorem frameSize_challenges {a b c d : Octet} (hs : salt = #v[a, b, c, d]) {p q : ℕ} (h : p + 5 ≤ q) :
    frameSize (slice (challenges salt) p q) = sizeAt a b c d (p % 13) := by
  rw [slice_cons _ (by omega), slice_cons _ (by omega), slice_cons _ (by omega), slice_cons _ (by omega),
    slice_cons _ (by omega), frameSize]
  simp only [challenges_eq salt hs, Nat.add_assoc, Nat.reduceAdd]
  have hj : p % 13 < 13 := Nat.mod_lt _ (by decide)
  have hadd : ∀ n, (p + n) % 13 = (p % 13 + n) % 13 := fun n => by omega
  simp only [hadd]
  generalize p % 13 = j at hj
  interval_cases j <;> rfl

/-- The front of the buffer moves on. -/
theorem drop_challenges (p q n : ℕ) : (slice (challenges salt) p q).drop n = slice (challenges salt) (p + n) q :=
  drop_slice _ p q n

/-- Sizes below `256`. -/
theorem be24_small {a b c : Octet} (h : be24 a b c < 256) : a = 0 ∧ b = 0 ∧ c.toNat = be24 a b c := by
  unfold be24 at h ⊢
  refine ⟨UInt8.toNat_inj.mp ?_, UInt8.toNat_inj.mp ?_, ?_⟩ <;> simp <;> omega

/-- What follows a message that is dropped, at one of the places where there may be a message that is
answered: more is dropped than is appended, or the next message is a request for a password, or nothing
is dropped. -/
theorem sizeAt_answered {a b c d : Octet} {j : ℕ} (hj : j < 13)
    (head : octetAt a b c d j = 1 ∨ (octetAt a b c d j = 0 ∧ (sizeAt a b c d j ≤ 3 ∨ 9 ≤ sizeAt a b c d j))) :
    sizeAt a b c d j = 0 ∨ 14 ≤ sizeAt a b c d j + sizeAt a b c d ((j + sizeAt a b c d j) % 13) ∨
      (j + sizeAt a b c d j + sizeAt a b c d ((j + sizeAt a b c d j) % 13)) % 13 = 0 := by
  by_cases hbig : 14 ≤ sizeAt a b c d j
  · exact .inr (.inl (by omega))
  have hR : (0x52 : Octet).toNat = 0x52 := rfl
  have h5 : (5 : Octet).toNat = 5 := rfl
  interval_cases j
  · exact absurd head (by simp [octetAt])
  · refine .inr (.inl ?_)
    rw [show sizeAt a b c d 1 = 12 from rfl, show sizeAt a b c d 0 = 13 from rfl]
    decide
  · exact absurd (show 14 ≤ be24 0 0xc 0 by decide) hbig
  · exact absurd (show 14 ≤ be24 0xc 0 0 by decide) hbig
  · exact absurd head (by simp [octetAt])
  · exact absurd head (show ¬ ((0 : Octet) = 1 ∨ (0 : Octet) = 0 ∧ (be24 0 0 5 ≤ 3 ∨ 9 ≤ be24 0 0 5)) by decide)
  · simp only [sizeAt, be24, h5] at hbig
    omega
  · simp only [sizeAt, be24, h5] at hbig
    omega
  · exact absurd head (by simp [octetAt])
  · -- the salt is read as a length, and is small, so that all but one octet of it are `0`
    by_cases ha : a = 0
    · subst ha
      have hlt : be24 b c d < 14 := not_le.mp hbig
      obtain ⟨rfl, rfl, hd⟩ := be24_small (show be24 b c d < 256 by omega)
      obtain ⟨n, hn, rfl⟩ : ∃ n < 14, d = UInt8.ofNat n := ⟨d.toNat, by omega, by simp⟩
      clear hbig hlt hd
      interval_cases n <;> revert head <;> decide
    · simp only [sizeAt, if_neg ha, be24, hR] at hbig
      omega
  · simp only [sizeAt, be24, hR] at hbig
    split at hbig <;> omega
  · simp only [sizeAt, be24, hR] at hbig
    split at hbig <;> omega
  · obtain rfl | ⟨rfl, -⟩ : d = 1 ∨ (d = 0 ∧ _) := head
    · refine .inr (.inl ?_)
      rw [show sizeAt a b c 1 12 = 1 from rfl, show sizeAt a b c 1 0 = 13 from rfl]
    · exact absurd (show 14 ≤ be24 0x52 0 0 by decide) hbig

/-- The last octets of a request for a password, if they are the beginning of a message, are answered and
only the first of them is sent. -/
theorem sizeAt_partial {a b c d : Octet} {j : ℕ} (hlo : 9 ≤ j) (hj : j < 13) (head : octetAt a b c d j = 1)
    (hsize : sizeAt a b c d j ≤ 17) : (j + sizeAt a b c d j) % 13 = 0 := by
  have hR : (0x52 : Octet).toNat = 0x52 := rfl
  interval_cases j
  · obtain rfl : a = 1 := head
    have hlt : be24 c d 0x52 + 1 ≤ 17 := hsize
    simp only [be24, hR] at hlt
    omega
  · obtain rfl : b = 1 := head
    have hlt : be24 d 0x52 0 + 1 ≤ 17 := hsize
    simp only [be24, hR] at hlt
    omega
  · obtain rfl : c = 1 := head
    exact absurd hsize (show ¬ be24 0x52 0 0 + 1 ≤ 17 by decide)
  · obtain rfl : d = 1 := head
    rw [show sizeAt a b c 1 12 = 1 from rfl]

/-! ### Nothing goes on forever -/

/-- A typed message has a size. -/
theorem frameSize_pos {w : List Octet} (h : 5 ≤ w.length) {a : Octet} (head : w.head? = some a) (ha : a ≠ 0) :
    0 < frameSize w := by
  rcases w with _ | ⟨a', _ | ⟨b, _ | ⟨c, _ | ⟨d, _ | ⟨e, l⟩⟩⟩⟩⟩
  all_goals first | simp at h; done | skip
  obtain rfl : a' = a := Option.some.inj head
  rw [frameSize, if_neg ha]
  exact Nat.succ_pos _

/-- From an empty buffer nothing goes on. -/
theorem not_echoes_nil {w : List Octet} : ¬ Echoes salt [] w := by
  rintro (⟨long, -, -⟩ | ⟨head | ⟨head, -, -⟩, -, -⟩)
  · exact absurd long (by decide)
  · cases head
  · cases head

theorem acc_nil : Acc (fun w' w => Echoes salt w w') [] := .intro _ fun _ h => absurd h (not_echoes_nil salt)

/-- A message of size `0` stays where it is until there is no room. -/
theorem acc_of_frameSize_eq_zero {w : List Octet} (h : 5 ≤ w.length) (h0 : frameSize w = 0) :
    Acc (fun w' w => Echoes salt w w') w := by
  induction hn : 512 - w.length using Nat.strong_induction_on generalizing w with
  | _ n ih =>
    refine .intro _ fun w' he => ?_
    have hbeyond : beyond w = w := by rw [beyond, h0, List.drop_zero]
    have hsame : frameSize (w ++ challengeText salt) = 0 := (frameSize_append h _).trans h0
    have hlen : (w ++ challengeText salt).length = w.length + 13 := by simp
    cases he with
    | dropped _ size => omega
    | answered _ room =>
      rw [hbeyond] at room ⊢
      rw [beyond, hsame, List.drop_zero]
      exact ih _ (by omega) (by omega) hsame rfl

/-- A request for a password is a message. -/
theorem beyond_challengeText : beyond (challengeText salt) = [] := by
  rw [beyond, show frameSize (challengeText salt) = 13 from rfl]
  exact List.drop_eq_nil_of_le (by simp)

theorem head?_challenges {a b c d : Octet} (hs : salt = #v[a, b, c, d]) {p q : ℕ} (h : p < q) :
    (slice (challenges salt) p q).head? = some (octetAt a b c d (p % 13)) := by
  rw [slice_cons _ h, List.head?_cons, challenges_eq salt hs]

/-- What becomes of a buffer that contains requests for a password only: it gets shorter, or begins with
a request for a password, which is no message of a client. -/
theorem Echoes.of_challenges {p q : ℕ} {w : List Octet} (h : p < q) (hq : q % 13 = 0)
    (hzero : ¬ (5 ≤ q - p ∧ frameSize (slice (challenges salt) p q) = 0))
    (he : Echoes salt (slice (challenges salt) p q) w) :
    p % 13 ≠ 0 ∧ ∃ p' q', w = slice (challenges salt) p' q' ∧ q' % 13 = 0 ∧ (q' - p' < q - p ∨ p' % 13 = 0) := by
  obtain ⟨a, b, c, d, hs⟩ : ∃ a b c d, salt = #v[a, b, c, d] :=
    ⟨salt[0], salt[1], salt[2], salt[3], by ext i hi; interval_cases i <;> rfl⟩
  have hhead := head?_challenges salt hs h
  have hj : p % 13 < 13 := Nat.mod_lt _ (by decide)
  cases he with
  | dropped long size head =>
    refine ⟨fun h0 => head ?_, p + frameSize (slice (challenges salt) p q), q, drop_challenges salt p q _, hq,
      .inl (by omega)⟩
    rw [hhead, h0]
    rfl
  | answered head room whole =>
    rw [hhead, Option.some_inj, Option.some_inj] at head
    have hne : p % 13 ≠ 0 := by
      intro h0
      rw [h0] at head
      exact absurd head (by simp [octetAt])
    refine ⟨hne, ?_⟩
    have hlen : (slice (challenges salt) p q).length = q - p := length_slice _ _ _
    by_cases hle : frameSize (slice (challenges salt) p q) ≤ q - p
    · -- the message is dropped as a whole, and what is left is followed by another request
      have hbeyond : beyond (slice (challenges salt) p q) ++ challengeText salt =
          slice (challenges salt) (p + frameSize (slice (challenges salt) p q)) (q + 13) := by
        rw [beyond, drop_challenges, slice_challenges salt (by omega) hq]
      have hsize := frameSize_challenges salt hs (p := p + frameSize (slice (challenges salt) p q)) (q := q + 13)
        (by omega)
      rw [hbeyond] at whole ⊢
      rw [beyond, drop_challenges, hsize]
      refine ⟨_, _, rfl, by omega, ?_⟩
      have hbeyondlen : (beyond (slice (challenges salt) p q)).length =
        q - p - frameSize (slice (challenges salt) p q) := by
        rw [beyond, List.length_drop, hlen]
      have hmod : (p + frameSize (slice (challenges salt) p q)) % 13 =
          (p % 13 + frameSize (slice (challenges salt) p q)) % 13 := by omega
      rw [hsize, hmod] at whole
      rw [hmod]
      by_cases h5 : 5 ≤ q - p
      · have hfirst := frameSize_challenges salt hs (p := p) (q := q) (by omega)
        rw [hfirst] at hzero head whole ⊢
        rcases sizeAt_answered hj (head.imp_right fun h => ⟨h.1, h.2.2⟩) with h0 | h14 | hreq
        · exact absurd ⟨h5, h0⟩ hzero
        · exact .inl (by omega)
        · exact .inr (by omega)
      · have h0 : frameSize (slice (challenges salt) p q) = 0 := frameSize_of_lt (by omega)
        rw [h0] at whole ⊢
        simp only [Nat.add_zero, Nat.mod_eq_of_lt hj] at whole ⊢
        have hone := head.resolve_right fun h => h5 (hlen ▸ h.2.1)
        have hreq := sizeAt_partial (by omega) hj hone (by omega)
        exact .inr (by omega)
    · have hnil : beyond (slice (challenges salt) p q) = [] := List.drop_eq_nil_of_le (by omega)
      rw [hnil, List.nil_append, beyond_challengeText]
      exact ⟨q, q, (slice_self _ _).symm, hq, .inl (by omega)⟩

/-- Nothing goes on forever in a buffer that contains requests for a password only. -/
theorem acc_challenges {p q : ℕ} (hq : q % 13 = 0) :
    Acc (fun w' w => Echoes salt w w') (slice (challenges salt) p q) := by
  induction hn : q - p using Nat.strong_induction_on generalizing p q with
  | _ n ih =>
    by_cases hlt : p < q
    · by_cases hzero : 5 ≤ q - p ∧ frameSize (slice (challenges salt) p q) = 0
      · exact acc_of_frameSize_eq_zero salt (by rw [length_slice]; exact hzero.1) hzero.2
      refine .intro _ fun w he => ?_
      obtain ⟨-, p', q', rfl, hq', hless | hreq⟩ := he.of_challenges salt hlt hq hzero
      · exact ih _ (hn ▸ hless) hq' rfl
      · -- it begins with a request for a password
        by_cases hlt' : p' < q'
        · by_cases hzero' : 5 ≤ q' - p' ∧ frameSize (slice (challenges salt) p' q') = 0
          · exact acc_of_frameSize_eq_zero salt (by rw [length_slice]; exact hzero'.1) hzero'.2
          · exact .intro _ fun w he => absurd hreq (he.of_challenges salt hlt' hq' hzero').1
        · rw [slice_eq_nil _ (not_lt.mp hlt')]
          exact acc_nil salt
    · rw [slice_eq_nil _ (not_lt.mp hlt)]
      exact acc_nil salt

/-- Nothing goes on forever in a buffer that contains anything, and requests for a password behind it. -/
theorem acc_append_challenges (v : List Octet) (n : ℕ) :
    Acc (fun w' w => Echoes salt w w') (v ++ slice (challenges salt) 0 (13 * n)) := by
  induction hv : v.length using Nat.strong_induction_on generalizing v n with
  | _ l ih =>
    have hdrop : ∀ (n i : ℕ), 0 < v.length → 0 < i →
        Acc (fun w' w => Echoes salt w w') ((v ++ slice (challenges salt) 0 (13 * n)).drop i) := by
      intro n i hpos hi
      rw [List.drop_append, drop_challenges]
      by_cases hle : i ≤ v.length
      · rw [Nat.sub_eq_zero_of_le hle]
        exact ih _ (by rw [List.length_drop]; omega) _ n rfl
      · rw [List.drop_eq_nil_of_le (not_le.mp hle).le, List.nil_append]
        exact acc_challenges salt (by omega)
    rcases v with _ | ⟨a, v⟩
    · exact acc_challenges salt (by omega)
    by_cases hzero : 5 ≤ ((a :: v) ++ slice (challenges salt) 0 (13 * n)).length ∧
        frameSize ((a :: v) ++ slice (challenges salt) 0 (13 * n)) = 0
    · exact acc_of_frameSize_eq_zero salt hzero.1 hzero.2
    refine .intro _ fun w he => ?_
    have hpos : 0 < (a :: v).length := Nat.succ_pos _
    cases he with
    | dropped _ size => exact hdrop n _ hpos size
    | answered head room whole =>
      generalize hw : (a :: v) ++ slice (challenges salt) 0 (13 * n) = w at *
      have hmore : w ++ challengeText salt = (a :: v) ++ slice (challenges salt) 0 (13 * (n + 1)) := by
        rw [← hw, List.append_assoc, slice_challenges salt (Nat.zero_le _) (by omega), Nat.mul_succ]
      by_cases hle : frameSize w ≤ w.length
      · have hbeyond : beyond w ++ challengeText salt = (w ++ challengeText salt).drop (frameSize w) :=
          (List.drop_append_of_le_length hle).symm
        -- something is dropped: what has no size is not a whole message, and there its answer has one
        have hsome : 0 < frameSize w + frameSize (beyond w ++ challengeText salt) := by
          by_cases h5 : 5 ≤ w.length
          · have := fun h => hzero ⟨h5, h⟩
            omega
          · have hone := head.resolve_right fun h => h5 h.2.1
            have hhead : (w ++ challengeText salt).head? = some 1 := by rw [List.head?_append, hone]; rfl
            rw [beyond_of_lt (not_le.mp h5)]
            have := frameSize_pos (by simp) hhead (by decide)
            omega
        rw [beyond, hbeyond, List.drop_drop, hmore]
        rw [hbeyond, hmore] at hsome
        exact hdrop (n + 1) _ hpos hsome
      · have hnil : beyond w = [] := List.drop_eq_nil_of_le (by omega)
        rw [hnil, List.nil_append, beyond_challengeText]
        exact acc_nil salt

/-- **Nothing goes on forever** in a buffer where nothing is read any more. -/
theorem echoes_wf : WellFounded fun w' w => Echoes salt w w' :=
  ⟨fun w => by simpa using acc_append_challenges salt w 0⟩

end PgRouter.Login
