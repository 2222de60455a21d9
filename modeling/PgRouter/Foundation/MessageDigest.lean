import PgRouter.Foundation.BlockHash
import Mathlib.Data.Nat.Digits.Defs
import Mathlib.Data.UInt

/-!
# The MD5 message digest

The algorithm as it is specified. A message is padded to a whole number of blocks of 64
octets, with the octet 128, zeros, and its length in bits as a number of 64 bits, low octet
first. A block is sixteen words of 32 bits. It is absorbed into four registers by 64
operations: each adds to one register a function of the other three, a word of the block and
a constant, rotates the sum, and adds the register next to it; the registers then change
places. The digest is the contents of the registers after the last block.
-/

namespace PgRouter.Foundation.MessageDigest

/-- The four registers. -/
structure Registers where
  /-- The first register. -/
  a : UInt32
  /-- The second register. -/
  b : UInt32
  /-- The third register. -/
  c : UInt32
  /-- The fourth register. -/
  d : UInt32
  deriving DecidableEq

/-- What the registers contain at the beginning. -/
def initial : Registers := ⟨0x67452301, 0xefcdab89, 0x98badcfe, 0x10325476⟩

/-! ### Octets and numbers -/

/-- The low `k` octets of a number, low octet first. -/
def toOctets : ℕ → ℕ → List UInt8
  | 0, _ => []
  | k + 1, n => UInt8.ofNat n :: toOctets k (n / 256)

@[simp] theorem length_toOctets (k n : ℕ) : (toOctets k n).length = k := by
  induction k generalizing n with
  | zero => rfl
  | succ k ih => rw [toOctets, List.length_cons, ih]

theorem toOctets_add (j k n : ℕ) : toOctets (j + k) n = toOctets j n ++ toOctets k (n / 256 ^ j) := by
  induction j generalizing n with
  | zero => simp [toOctets]
  | succ j ih => rw [Nat.succ_add, toOctets, ih, toOctets, List.cons_append, Nat.div_div_eq_div_mul, pow_succ']

/-- The octets above the low `k` do not matter. -/
theorem toOctets_mod (k n : ℕ) : toOctets k (n % 256 ^ k) = toOctets k n := by
  induction k generalizing n with
  | zero => rfl
  | succ k ih =>
    have hhead : UInt8.ofNat (n % 256 ^ (k + 1)) = UInt8.ofNat n := by
      rw [← UInt8.toNat_inj, UInt8.toNat_ofNat', UInt8.toNat_ofNat']
      exact Nat.mod_mod_of_dvd n (Dvd.intro_left _ (pow_succ 256 k).symm)
    rw [toOctets, toOctets, hhead, pow_succ', Nat.mod_mul_right_div_self, ih]

/-- Word `k` of a block, low octet first. -/
def word (block : List UInt8) (k : ℕ) : UInt32 :=
  UInt32.ofNat (Nat.ofDigits 256 (((block.drop (4 * k)).take 4).map UInt8.toNat))

/-- The contents of the registers, as octets. -/
def Registers.octets (r : Registers) : List UInt8 :=
  toOctets 4 r.a.toNat ++ toOctets 4 r.b.toNat ++ toOctets 4 r.c.toNat ++ toOctets 4 r.d.toNat

/-! ### The operations -/

/-- If `x` then `y` else `z`, bit by bit. -/
def F (x y z : UInt32) : UInt32 := (x &&& y) ||| (~~~x &&& z)

/-- If `z` then `x` else `y`, bit by bit. -/
def G (x y z : UInt32) : UInt32 := (x &&& z) ||| (y &&& ~~~z)

/-- The parity, bit by bit. -/
def H (x y z : UInt32) : UInt32 := x ^^^ y ^^^ z

/-- The function of the last round. -/
def I (x y z : UInt32) : UInt32 := y ^^^ (x ||| ~~~z)

/-- The function of operation `i`: there are four rounds of sixteen operations. -/
def mix (i : ℕ) : UInt32 → UInt32 → UInt32 → UInt32 :=
  if i < 16 then F else if i < 32 then G else if i < 48 then H else I

/-- The word that operation `i` adds. -/
def wordIndex (i : ℕ) : ℕ :=
  if i < 16 then i else if i < 32 then (5 * i + 1) % 16 else if i < 48 then (3 * i + 5) % 16 else 7 * i % 16

/-- By how much operation `i` rotates. -/
def amount (i : ℕ) : ℕ :=
  if i < 16 then [7, 12, 17, 22].getD (i % 4) 0
  else if i < 32 then [5, 9, 14, 20].getD (i % 4) 0
  else if i < 48 then [4, 11, 16, 23].getD (i % 4) 0
  else [6, 10, 15, 21].getD (i % 4) 0

/-- The constant of operation `i` is the integer part of `2³² · |sin (i + 1)|`. -/
def sines : List UInt32 := [
  0xd76aa478, 0xe8c7b756, 0x242070db, 0xc1bdceee, 0xf57c0faf, 0x4787c62a,
  0xa8304613, 0xfd469501, 0x698098d8, 0x8b44f7af, 0xffff5bb1, 0x895cd7be,
  0x6b901122, 0xfd987193, 0xa679438e, 0x49b40821, 0xf61e2562, 0xc040b340,
  0x265e5a51, 0xe9b6c7aa, 0xd62f105d, 0x02441453, 0xd8a1e681, 0xe7d3fbc8,
  0x21e1cde6, 0xc33707d6, 0xf4d50d87, 0x455a14ed, 0xa9e3e905, 0xfcefa3f8,
  0x676f02d9, 0x8d2a4c8a, 0xfffa3942, 0x8771f681, 0x6d9d6122, 0xfde5380c,
  0xa4beea44, 0x4bdecfa9, 0xf6bb4b60, 0xbebfbc70, 0x289b7ec6, 0xeaa127fa,
  0xd4ef3085, 0x04881d05, 0xd9d4d039, 0xe6db99e5, 0x1fa27cf8, 0xc4ac5665,
  0xf4292244, 0x432aff97, 0xab9423a7, 0xfc93a039, 0x655b59c3, 0x8f0ccc92,
  0xffeff47d, 0x85845dd1, 0x6fa87e4f, 0xfe2ce6e0, 0xa3014314, 0x4e0811a1,
  0xf7537e82, 0xbd3af235, 0x2ad7d2bb, 0xeb86d391]

/-- A word rotated to the left. -/
def rotate (x : UInt32) (s : ℕ) : UInt32 := ⟨x.toBitVec.rotateLeft s⟩

/-- Operation `i`, on the words `x`. -/
def operation (x : ℕ → UInt32) (r : Registers) (i : ℕ) : Registers :=
  ⟨r.d, r.b + rotate (r.a + mix i r.b r.c r.d + x (wordIndex i) + sines.getD i 0) (amount i), r.b, r.c⟩

/-- A block is absorbed. -/
def compress (r : Registers) (block : List UInt8) : Registers :=
  let r' := (List.range 64).foldl (operation (word block)) r
  ⟨r.a + r'.a, r.b + r'.b, r.c + r'.c, r.d + r'.d⟩

/-! ### The digest -/

/-- What a message of `len` octets is padded with. -/
def padding (len : ℕ) : List UInt8 :=
  0x80 :: List.replicate ((119 - len % 64) % 64) 0 ++ toOctets 8 (8 * len)

/-- **The digest of a message.** -/
def digest (message : List UInt8) : List UInt8 :=
  (absorbAll 64 compress initial (message ++ padding message.length)).octets

/-- The hexadecimal digit for a number below 16, in lower case. -/
def hexDigit (n : ℕ) : UInt8 := if n < 10 then UInt8.ofNat (0x30 + n) else UInt8.ofNat (0x61 + (n - 10))

/-- Octets in hexadecimal. -/
def hex (d : List UInt8) : List UInt8 := d.flatMap fun o => [hexDigit (o.toNat / 16), hexDigit (o.toNat % 16)]

@[simp] theorem length_digest (message : List UInt8) : (digest message).length = 16 := by
  simp [digest, Registers.octets]

theorem length_hex (d : List UInt8) : (hex d).length = 2 * d.length := by
  induction d with
  | nil => rfl
  | cons o d ih =>
    rw [hex, List.flatMap_cons, List.length_append, ← hex, ih, List.length_cons, List.length_cons, List.length_cons,
      List.length_nil]
    omega

/-- The digest of `abc` is `900150983cd24fb0d6963f7d28e17f72`. -/
example : digest [0x61, 0x62, 0x63] =
    [0x90, 0x01, 0x50, 0x98, 0x3c, 0xd2, 0x4f, 0xb0, 0xd6, 0x96, 0x3f, 0x7d, 0x28, 0xe1, 0x7f, 0x72] := by
  decide +kernel

end PgRouter.Foundation.MessageDigest
