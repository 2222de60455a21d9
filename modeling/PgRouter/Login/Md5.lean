import PgRouter.Foundation.Memory
import PgRouter.Foundation.MessageDigest
import PgRouter.Wire.Kernel

/-!
# Computing the digest

`md5.c`. A digest is computed in a context that holds the registers, the last octets of the
message that are no whole block yet, and the length of the message in two parts.

## The model

The 64 lines `STEP(…)` of `body` are a table that is run through line by line. The buffer is
a memory; a `size` is a natural number, and what is done to `lo` and `hi` is written out.
`SET` is translated in the form that puts a word together from its octets; on the machines
named there the other form reads the same word. `body` is called with whole blocks only, and
at least one.

## What is proved

The boolean functions are those of the algorithm, rewritten, and a line does to the registers
that it names what the operation does to the registers in their places (`view_STEP`). So a
block is absorbed as it should be (`bodyRound_eq`), and what `pgr_md5_update` keeps (`Holds`) is
what a message comes to that arrives in pieces: however it was divided, `pgr_md5_hex` gives its
digest, in lower-case hexadecimal (`Holds.hex`).
-/

namespace PgRouter.Login

open Foundation Wire

/-! ### The macros -/

/-- The macro `F`. -/
def F (x y z : UInt32) : UInt32 := z ^^^ (x &&& (y ^^^ z))

/-- The macro `G`. -/
def G (x y z : UInt32) : UInt32 := y ^^^ (z &&& (x ^^^ y))

/-- The macro `H`. -/
def H (x y z : UInt32) : UInt32 := (x ^^^ y) ^^^ z

/-- The macro `H2`. -/
def H2 (x y z : UInt32) : UInt32 := x ^^^ (y ^^^ z)

/-- The macro `I`. -/
def I (x y z : UInt32) : UInt32 := y ^^^ (x ||| ~~~z)

/-- The name of a macro. -/
inductive Fn where
  /-- `F`. -/
  | F
  /-- `G`. -/
  | G
  /-- `H`. -/
  | H
  /-- `H2`. -/
  | H2
  /-- `I`. -/
  | I
  deriving DecidableEq

/-- The macro with that name. -/
def Fn.apply : Fn → UInt32 → UInt32 → UInt32 → UInt32
  | .F => Login.F
  | .G => Login.G
  | .H => Login.H
  | .H2 => Login.H2
  | .I => Login.I

/-- A variable of `body`. -/
inductive Var where
  /-- `a`. -/
  | a
  /-- `b`. -/
  | b
  /-- `c`. -/
  | c
  /-- `d`. -/
  | d
  deriving DecidableEq

/-- The value of a variable. -/
def Var.get (r : MessageDigest.Registers) : Var → UInt32
  | .a => r.a
  | .b => r.b
  | .c => r.c
  | .d => r.d

/-- A variable is assigned to. -/
def Var.set (r : MessageDigest.Registers) (x : Var) (v : UInt32) : MessageDigest.Registers :=
  match x with
  | .a => { r with a := v }
  | .b => { r with b := v }
  | .c => { r with c := v }
  | .d => { r with d := v }

/-- The arguments of a line `STEP(f, a, b, c, d, SET(n), t, s)`. -/
structure Line where
  /-- The macro. -/
  f : Fn
  /-- The variable that is assigned to. -/
  a : Var
  /-- The next variable. -/
  b : Var
  /-- The next variable. -/
  c : Var
  /-- The next variable. -/
  d : Var
  /-- The word of the block. -/
  n : ℕ
  /-- The constant. -/
  t : UInt32
  /-- By how much is rotated. -/
  s : ℕ

/-- The macro `STEP`, `x` being the words of the block. -/
def STEP (x : ℕ → UInt32) (r : MessageDigest.Registers) (l : Line) : MessageDigest.Registers :=
  let r := l.a.set r (l.a.get r + (l.f.apply (l.b.get r) (l.c.get r) (l.d.get r) + x l.n + l.t))
  let r := l.a.set r
    ((l.a.get r <<< UInt32.ofNat l.s) ||| ((l.a.get r &&& 0xffffffff) >>> UInt32.ofNat (32 - l.s)))
  l.a.set r (l.a.get r + l.b.get r)

/-- The macro `SET`, and `GET`: word `n` of the block at `ptr`. -/
def SET (ptr : List Octet) (n : ℕ) : UInt32 :=
  (ptr.getD (n * 4) 0).toUInt32 ||| (ptr.getD (n * 4 + 1) 0).toUInt32 <<< 8 |||
    (ptr.getD (n * 4 + 2) 0).toUInt32 <<< 16 ||| (ptr.getD (n * 4 + 3) 0).toUInt32 <<< 24

/-- The lines of `body`. -/
def bodyLines : List Line := [
  -- Round 1
  ⟨.F, .a, .b, .c, .d, 0, 0xd76aa478, 7⟩,
  ⟨.F, .d, .a, .b, .c, 1, 0xe8c7b756, 12⟩,
  ⟨.F, .c, .d, .a, .b, 2, 0x242070db, 17⟩,
  ⟨.F, .b, .c, .d, .a, 3, 0xc1bdceee, 22⟩,
  ⟨.F, .a, .b, .c, .d, 4, 0xf57c0faf, 7⟩,
  ⟨.F, .d, .a, .b, .c, 5, 0x4787c62a, 12⟩,
  ⟨.F, .c, .d, .a, .b, 6, 0xa8304613, 17⟩,
  ⟨.F, .b, .c, .d, .a, 7, 0xfd469501, 22⟩,
  ⟨.F, .a, .b, .c, .d, 8, 0x698098d8, 7⟩,
  ⟨.F, .d, .a, .b, .c, 9, 0x8b44f7af, 12⟩,
  ⟨.F, .c, .d, .a, .b, 10, 0xffff5bb1, 17⟩,
  ⟨.F, .b, .c, .d, .a, 11, 0x895cd7be, 22⟩,
  ⟨.F, .a, .b, .c, .d, 12, 0x6b901122, 7⟩,
  ⟨.F, .d, .a, .b, .c, 13, 0xfd987193, 12⟩,
  ⟨.F, .c, .d, .a, .b, 14, 0xa679438e, 17⟩,
  ⟨.F, .b, .c, .d, .a, 15, 0x49b40821, 22⟩,
  -- Round 2
  ⟨.G, .a, .b, .c, .d, 1, 0xf61e2562, 5⟩,
  ⟨.G, .d, .a, .b, .c, 6, 0xc040b340, 9⟩,
  ⟨.G, .c, .d, .a, .b, 11, 0x265e5a51, 14⟩,
  ⟨.G, .b, .c, .d, .a, 0, 0xe9b6c7aa, 20⟩,
  ⟨.G, .a, .b, .c, .d, 5, 0xd62f105d, 5⟩,
  ⟨.G, .d, .a, .b, .c, 10, 0x02441453, 9⟩,
  ⟨.G, .c, .d, .a, .b, 15, 0xd8a1e681, 14⟩,
  ⟨.G, .b, .c, .d, .a, 4, 0xe7d3fbc8, 20⟩,
  ⟨.G, .a, .b, .c, .d, 9, 0x21e1cde6, 5⟩,
  ⟨.G, .d, .a, .b, .c, 14, 0xc33707d6, 9⟩,
  ⟨.G, .c, .d, .a, .b, 3, 0xf4d50d87, 14⟩,
  ⟨.G, .b, .c, .d, .a, 8, 0x455a14ed, 20⟩,
  ⟨.G, .a, .b, .c, .d, 13, 0xa9e3e905, 5⟩,
  ⟨.G, .d, .a, .b, .c, 2, 0xfcefa3f8, 9⟩,
  ⟨.G, .c, .d, .a, .b, 7, 0x676f02d9, 14⟩,
  ⟨.G, .b, .c, .d, .a, 12, 0x8d2a4c8a, 20⟩,
  -- Round 3
  ⟨.H, .a, .b, .c, .d, 5, 0xfffa3942, 4⟩,
  ⟨.H2, .d, .a, .b, .c, 8, 0x8771f681, 11⟩,
  ⟨.H, .c, .d, .a, .b, 11, 0x6d9d6122, 16⟩,
  ⟨.H2, .b, .c, .d, .a, 14, 0xfde5380c, 23⟩,
  ⟨.H, .a, .b, .c, .d, 1, 0xa4beea44, 4⟩,
  ⟨.H2, .d, .a, .b, .c, 4, 0x4bdecfa9, 11⟩,
  ⟨.H, .c, .d, .a, .b, 7, 0xf6bb4b60, 16⟩,
  ⟨.H2, .b, .c, .d, .a, 10, 0xbebfbc70, 23⟩,
  ⟨.H, .a, .b, .c, .d, 13, 0x289b7ec6, 4⟩,
  ⟨.H2, .d, .a, .b, .c, 0, 0xeaa127fa, 11⟩,
  ⟨.H, .c, .d, .a, .b, 3, 0xd4ef3085, 16⟩,
  ⟨.H2, .b, .c, .d, .a, 6, 0x04881d05, 23⟩,
  ⟨.H, .a, .b, .c, .d, 9, 0xd9d4d039, 4⟩,
  ⟨.H2, .d, .a, .b, .c, 12, 0xe6db99e5, 11⟩,
  ⟨.H, .c, .d, .a, .b, 15, 0x1fa27cf8, 16⟩,
  ⟨.H2, .b, .c, .d, .a, 2, 0xc4ac5665, 23⟩,
  -- Round 4
  ⟨.I, .a, .b, .c, .d, 0, 0xf4292244, 6⟩,
  ⟨.I, .d, .a, .b, .c, 7, 0x432aff97, 10⟩,
  ⟨.I, .c, .d, .a, .b, 14, 0xab9423a7, 15⟩,
  ⟨.I, .b, .c, .d, .a, 5, 0xfc93a039, 21⟩,
  ⟨.I, .a, .b, .c, .d, 12, 0x655b59c3, 6⟩,
  ⟨.I, .d, .a, .b, .c, 3, 0x8f0ccc92, 10⟩,
  ⟨.I, .c, .d, .a, .b, 10, 0xffeff47d, 15⟩,
  ⟨.I, .b, .c, .d, .a, 1, 0x85845dd1, 21⟩,
  ⟨.I, .a, .b, .c, .d, 8, 0x6fa87e4f, 6⟩,
  ⟨.I, .d, .a, .b, .c, 15, 0xfe2ce6e0, 10⟩,
  ⟨.I, .c, .d, .a, .b, 6, 0xa3014314, 15⟩,
  ⟨.I, .b, .c, .d, .a, 13, 0x4e0811a1, 21⟩,
  ⟨.I, .a, .b, .c, .d, 4, 0xf7537e82, 6⟩,
  ⟨.I, .d, .a, .b, .c, 11, 0xbd3af235, 10⟩,
  ⟨.I, .c, .d, .a, .b, 2, 0x2ad7d2bb, 15⟩,
  ⟨.I, .b, .c, .d, .a, 9, 0xeb86d391, 21⟩]

/-! ### The functions -/

/-- `MD5`, without `blk`, which is not used. -/
structure Md5 extends MessageDigest.Registers where
  /-- The length of the message divided by 2^29. -/
  hi : UInt32
  /-- The length of the message modulo 2^29. -/
  lo : UInt32
  /-- The last octets of the message. -/
  buf : ℕ → Octet

/-- A round of the loop of `body`. -/
def bodyRound (r : MessageDigest.Registers) (ptr : List Octet) : MessageDigest.Registers :=
  let r' := bodyLines.foldl (STEP (SET ptr)) r
  ⟨r'.a + r.a, r'.b + r.b, r'.c + r.c, r'.d + r.d⟩

/-- `body`, on the first `size` octets of `data`. -/
def body (ctx : Md5) (data : List Octet) (size : ℕ) : Md5 :=
  { ctx with toRegisters := absorb 64 bodyRound (size / 64) ctx.toRegisters data }

/-- `pgr_md5_init`: the buffer is not touched. -/
def pgrMd5Init (buf : ℕ → Octet) : Md5 where
  a := 0x67452301
  b := 0xefcdab89
  c := 0x98badcfe
  d := 0x10325476
  hi := 0
  lo := 0
  buf := buf

/-- The lines of `pgr_md5_update` on the length. -/
def Md5.count (ctx : Md5) (size : ℕ) : Md5 :=
  let savedLo := ctx.lo
  let ctx := { ctx with lo := UInt32.ofNat ((savedLo.toNat + size) % 2 ^ 29) }
  let ctx := if ctx.lo < savedLo then { ctx with hi := ctx.hi + 1 } else ctx
  { ctx with hi := ctx.hi + UInt32.ofNat (size / 2 ^ 29) }

/-- The lines of `pgr_md5_update` where nothing is in the buffer. -/
def Md5.take (ctx : Md5) (data : List Octet) : Md5 :=
  let size := data.length
  let (ctx, data) :=
    if 64 ≤ size then (body ctx data (64 * (size / 64)), data.drop (64 * (size / 64))) else (ctx, data)
  { ctx with buf := blit ctx.buf 0 data }

/-- `pgr_md5_update`. -/
def pgrMd5Update (ctx : Md5) (data : List Octet) : Md5 :=
  let size := data.length
  let used := ctx.lo.toNat % 64
  let ctx := ctx.count size
  if used ≠ 0 then
    let available := 64 - used
    if size < available then { ctx with buf := blit ctx.buf used data }
    else
      let ctx := { ctx with buf := blit ctx.buf used (data.take available) }
      (body ctx (slice ctx.buf 0 64) 64).take (data.drop available)
  else ctx.take data

/-- The octets of a word, as they are stored by `x`, `x >> 8`, `x >> 16`, `x >> 24`. -/
def storeWord (x : UInt32) : List Octet :=
  [x.toUInt8, (x >>> 8).toUInt8, (x >>> 16).toUInt8, (x >>> 24).toUInt8]

/-- The lines of `pgr_md5_raw` that store the length and the result. -/
def Md5.finish (ctx : Md5) (used available : ℕ) : List Octet :=
  let ctx := { ctx with buf := blit ctx.buf used (List.replicate (available - 8) 0) }
  let ctx := { ctx with lo := ctx.lo <<< 3 }
  let ctx := { ctx with buf := blit ctx.buf 56 (storeWord ctx.lo ++ storeWord ctx.hi) }
  let ctx := body ctx (slice ctx.buf 0 64) 64
  storeWord ctx.a ++ storeWord ctx.b ++ storeWord ctx.c ++ storeWord ctx.d

/-- `pgr_md5_raw`: what it stores at `result`. That it clears the context is left out: the
context is not used again. -/
def pgrMd5Raw (ctx : Md5) : List Octet :=
  let used := ctx.lo.toNat % 64
  let ctx := { ctx with buf := blit ctx.buf used [0x80] }
  let used := used + 1
  let available := 64 - used
  if available < 8 then
    let ctx := { ctx with buf := blit ctx.buf used (List.replicate available 0) }
    (body ctx (slice ctx.buf 0 64) 64).finish 0 64
  else ctx.finish used available

/-- A hexadecimal digit, as it is stored by `pgr_md5_hex`. -/
def hexDigit (u : Octet) : Octet := if u < 0xa then u + 0x30 else u - 0xa + 0x61

/-- `pgr_md5_hex`: what it stores at `result`. -/
def pgrMd5Hex (ctx : Md5) : List Octet :=
  (pgrMd5Raw ctx).flatMap fun o : Octet => [hexDigit (o >>> 4 &&& 0xf), hexDigit (o &&& 0xf)]

/-! ### A block -/

theorem F_eq : F = MessageDigest.F := by
  funext x y z
  refine UInt32.toBitVec_inj.mp (BitVec.eq_of_getLsbD_eq fun i hi => ?_)
  simp only [F, MessageDigest.F, UInt32.toBitVec_or, UInt32.toBitVec_and, UInt32.toBitVec_xor, UInt32.toBitVec_not,
    BitVec.getLsbD_xor, BitVec.getLsbD_and, BitVec.getLsbD_or, BitVec.getLsbD_not, hi]
  cases x.toBitVec.getLsbD i <;> cases y.toBitVec.getLsbD i <;> cases z.toBitVec.getLsbD i <;> rfl

theorem G_eq : G = MessageDigest.G := by
  funext x y z
  refine UInt32.toBitVec_inj.mp (BitVec.eq_of_getLsbD_eq fun i hi => ?_)
  simp only [G, MessageDigest.G, UInt32.toBitVec_or, UInt32.toBitVec_and, UInt32.toBitVec_xor, UInt32.toBitVec_not,
    BitVec.getLsbD_xor, BitVec.getLsbD_and, BitVec.getLsbD_or, BitVec.getLsbD_not, hi]
  cases x.toBitVec.getLsbD i <;> cases y.toBitVec.getLsbD i <;> cases z.toBitVec.getLsbD i <;> rfl

theorem H2_eq : H2 = MessageDigest.H := by
  funext x y z
  exact (UInt32.xor_assoc x y z).symm

/-- Shifting to the left and to the right and putting together is rotating. -/
theorem rotate_eq (x : UInt32) {s : ℕ} (h0 : 0 < s) (hs : s < 32) :
    (x <<< UInt32.ofNat s) ||| ((x &&& 0xffffffff) >>> UInt32.ofNat (32 - s)) = MessageDigest.rotate x s := by
  have hmask : x &&& 0xffffffff = x := by
    rw [show (0xffffffff : UInt32) = -1 by rfl, UInt32.and_neg_one]
  have hshift : ∀ j < 32, ((UInt32.ofNat j).toBitVec % 32).toNat = j := fun j hj => by
    rw [BitVec.toNat_umod, UInt32.toNat_toBitVec, UInt32.toNat_ofNat_of_lt' (by rw [UInt32.size]; omega)]
    exact Nat.mod_eq_of_lt hj
  refine UInt32.toBitVec_inj.mp ?_
  rw [hmask, UInt32.toBitVec_or, UInt32.toBitVec_shiftLeft, UInt32.toBitVec_shiftRight, BitVec.shiftLeft_eq',
    BitVec.ushiftRight_eq', hshift s hs, hshift _ (by omega)]
  exact (BitVec.rotateLeft_eq_rotateLeftAux_of_lt hs).symm

/-- Four octets, put together. -/
theorem word4 (a b c d : Octet) :
    a.toUInt32 ||| b.toUInt32 <<< 8 ||| c.toUInt32 <<< 16 ||| d.toUInt32 <<< 24 =
      UInt32.ofNat (Nat.ofDigits 256 [a.toNat, b.toNat, c.toNat, d.toNat]) := by
  have ha := a.toNat_lt
  have hb := b.toNat_lt
  have hc := c.toNat_lt
  have hd := d.toNat_lt
  have hor : ∀ {i x y : ℕ}, x < 2 ^ i → x ||| y <<< i = x + y * 2 ^ i := fun {i x y} hx => by
    rw [Nat.or_comm, ← Nat.shiftLeft_add_eq_or_of_lt hx, Nat.shiftLeft_eq, Nat.add_comm]
  have hshift : ∀ {i x : ℕ}, x < 2 ^ 8 → i ≤ 24 → x <<< i % 2 ^ 32 = x <<< i := fun {i x} hx hi => by
    refine Nat.mod_eq_of_lt ?_
    rw [Nat.shiftLeft_eq]
    calc x * 2 ^ i < 2 ^ 8 * 2 ^ i := Nat.mul_lt_mul_of_pos_right hx (Nat.two_pow_pos i)
      _ ≤ 2 ^ 8 * 2 ^ 24 := Nat.mul_le_mul_left _ (Nat.pow_le_pow_right two_pos hi)
  rw [← UInt32.toNat_inj]
  simp only [UInt32.toNat_or, UInt32.toNat_shiftLeft, UInt8.toNat_toUInt32, UInt32.toNat_ofNat',
    Nat.ofDigits_cons, Nat.ofDigits_nil, show UInt32.toNat 8 % 32 = 8 by rfl,
    show UInt32.toNat 16 % 32 = 16 by rfl, show UInt32.toNat 24 % 32 = 24 by rfl]
  rw [hshift hb (by decide), hshift hc (by decide), hshift hd (by decide), hor (i := 8) ha, hor (i := 16) (by omega),
    hor (i := 24) (by omega)]
  omega

theorem SET_eq (ptr : List Octet) (n : ℕ) : SET ptr n = MessageDigest.word ptr n := by
  have hget : ∀ j, ptr.getD (n * 4 + j) 0 = (ptr.drop (4 * n)).getD j 0 := fun j => by
    rw [List.getD_eq_getElem?_getD, List.getD_eq_getElem?_getD, List.getElem?_drop, Nat.mul_comm]
  rw [SET, MessageDigest.word, hget 1, hget 2, hget 3, ← Nat.add_zero (n * 4), hget 0, word4]
  rcases ptr.drop (4 * n) with _ | ⟨a, _ | ⟨b, _ | ⟨c, _ | ⟨d, rest⟩⟩⟩⟩ <;> rfl

/-- The macros of the round that operation `i` is in. -/
def roundMacros (i : ℕ) : List Fn :=
  if i < 16 then [.F] else if i < 32 then [.G] else if i < 48 then [.H, .H2] else [.I]

/-- The variables that are in the places of the registers at operation `i`. -/
def places (i : ℕ) : Var × Var × Var × Var :=
  match i % 4 with
  | 0 => (.a, .b, .c, .d)
  | 1 => (.d, .a, .b, .c)
  | 2 => (.c, .d, .a, .b)
  | _ => (.b, .c, .d, .a)

/-- The registers in their places at operation `i`. -/
def view (i : ℕ) (r : MessageDigest.Registers) : MessageDigest.Registers :=
  let p := places i
  ⟨p.1.get r, p.2.1.get r, p.2.2.1.get r, p.2.2.2.get r⟩

/-- The line is operation `i`. -/
structure Line.Is (l : Line) (i : ℕ) : Prop where
  /-- The macro is one of the round. -/
  f : l.f ∈ roundMacros i
  /-- The variables are in their places. -/
  vars : (l.a, l.b, l.c, l.d) = places i
  /-- The word. -/
  n : l.n = MessageDigest.wordIndex i
  /-- The constant. -/
  t : l.t = MessageDigest.sines.getD i 0
  /-- By how much is rotated. -/
  s : l.s = MessageDigest.amount i
  /-- It is a rotation. -/
  s_range : 0 < l.s ∧ l.s < 32

instance (l : Line) (i : ℕ) : Decidable (l.Is i) :=
  decidable_of_iff (l.f ∈ roundMacros i ∧ (l.a, l.b, l.c, l.d) = places i ∧ l.n = MessageDigest.wordIndex i ∧
      l.t = MessageDigest.sines.getD i 0 ∧ l.s = MessageDigest.amount i ∧ 0 < l.s ∧ l.s < 32)
    ⟨fun ⟨hf, hvars, hn, ht, hs, hr⟩ => ⟨hf, hvars, hn, ht, hs, hr⟩,
      fun h => ⟨h.f, h.vars, h.n, h.t, h.s, h.s_range⟩⟩

/-- The lines of `body` are the operations in order. -/
theorem bodyLines_is : ∀ p ∈ bodyLines.zipIdx, p.1.Is p.2 := by decide +kernel

theorem Line.Is.apply {l : Line} {i : ℕ} (h : l.Is i) : l.f.apply = MessageDigest.mix i := by
  have hf := h.f
  unfold roundMacros at hf
  unfold MessageDigest.mix
  split_ifs at hf ⊢
  · rw [List.mem_singleton.mp hf, Fn.apply, F_eq]
  · rw [List.mem_singleton.mp hf, Fn.apply, G_eq]
  · rcases List.mem_pair.mp hf with hH | hH <;> rw [hH, Fn.apply]
    · rfl
    · exact H2_eq
  · rw [List.mem_singleton.mp hf]
    rfl


theorem Var.get_set_self (x : Var) (r : MessageDigest.Registers) (v : UInt32) : x.get (x.set r v) = v := by
  cases x <;> rfl

theorem Var.get_set_of_ne {x y : Var} (h : x ≠ y) (r : MessageDigest.Registers) (v : UInt32) :
    x.get (y.set r v) = x.get r := by
  cases x <;> cases y <;> first | rfl | exact absurd rfl h

theorem Var.set_set (x : Var) (r : MessageDigest.Registers) (v w : UInt32) : x.set (x.set r v) w = x.set r w := by
  cases x <;> rfl

/-- A line assigns to its first variable. -/
theorem Line.Is.STEP_eq {l : Line} {i : ℕ} (h : l.Is i) (x : ℕ → UInt32) (r : MessageDigest.Registers) :
    STEP x r l = l.a.set r (l.b.get r + MessageDigest.rotate (l.a.get r +
      MessageDigest.mix i (l.b.get r) (l.c.get r) (l.d.get r) + x (MessageDigest.wordIndex i) +
      MessageDigest.sines.getD i 0) (MessageDigest.amount i)) := by
  have hne : l.b ≠ l.a := by
    intro he
    have hvars := h.vars
    rw [he] at hvars
    unfold places at hvars
    have hab : ∀ p q : Var × Var × Var, ∀ x y : Var, (l.a, l.a, p.2) = (x, y, q.2) → x = y := fun p q x y he =>
      (Prod.mk.inj he).1.symm.trans (Prod.mk.inj (Prod.mk.inj he).2).1
    split at hvars <;> cases hab (.a, l.c, l.d) (.a, _, _) _ _ hvars
  unfold STEP
  simp only [Var.get_set_self, Var.get_set_of_ne hne, Var.set_set, rotate_eq _ h.s_range.1 h.s_range.2]
  rw [h.apply, h.n, h.t, h.s, UInt32.add_comm (MessageDigest.rotate _ _), UInt32.add_assoc (l.a.get r),
    UInt32.add_assoc (l.a.get r)]

/-- A line does to the variables what the operation does to the registers in their places. -/
theorem Line.Is.view_STEP {l : Line} {i : ℕ} (h : l.Is i) (x : ℕ → UInt32) (r : MessageDigest.Registers) :
    view (i + 1) (STEP x r l) = MessageDigest.operation x (view i r) i := by
  rw [h.STEP_eq]
  have hvars := h.vars
  have hi : i % 4 = 0 ∨ i % 4 = 1 ∨ i % 4 = 2 ∨ i % 4 = 3 := by omega
  rcases hi with hi | hi | hi | hi <;>
  · have hi' := congrArg (fun j => (j + 1) % 4) hi
    simp only [places, hi, Prod.mk.injEq] at hvars
    obtain ⟨ha, hb, hc, hd⟩ := hvars
    simp only [Nat.mod_add_mod] at hi'
    rw [ha, hb, hc, hd]
    simp only [view, places, hi, hi']
    rfl

/-- So do the lines one after the other. -/
theorem view_foldl (x : ℕ → UInt32) (ls : List Line) (n : ℕ) (h : ∀ p ∈ ls.zipIdx n, p.1.Is p.2)
    (r : MessageDigest.Registers) :
    view (n + ls.length) (ls.foldl (STEP x) r) =
      (List.range' n ls.length).foldl (MessageDigest.operation x) (view n r) := by
  induction ls generalizing n r with
  | nil => rfl
  | cons l ls ih =>
    rw [List.zipIdx_cons] at h
    have hl : l.Is n := h (l, n) List.mem_cons_self
    rw [List.foldl_cons, List.length_cons, List.range'_succ, List.foldl_cons, ← hl.view_STEP,
      ← ih (n + 1) (fun p hp => h p (List.mem_cons_of_mem _ hp)), Nat.add_right_comm, Nat.add_assoc]

/-- **A round of `body` absorbs a block.** -/
theorem bodyRound_eq : bodyRound = MessageDigest.compress := by
  funext r ptr
  have hset : SET ptr = MessageDigest.word ptr := funext (SET_eq ptr)
  have hlen : bodyLines.length = 64 := by decide
  have h0 : view 0 r = r := rfl
  have h64 : ∀ r, view 64 r = r := fun _ => rfl
  have h := view_foldl (MessageDigest.word ptr) bodyLines 0 bodyLines_is r
  rw [hlen, Nat.zero_add, h64, h0, ← hset, ← List.range_eq_range'] at h
  unfold bodyRound MessageDigest.compress
  rw [h, hset]
  simp only [UInt32.add_comm]

/-! ### A message in pieces -/

/-- What the context holds of the message `s`. -/
structure Holds (ctx : Md5) (s : List Octet) : Prop where
  /-- The blocks of the message are absorbed. -/
  regs : ctx.toRegisters = absorbAll 64 MessageDigest.compress MessageDigest.initial s
  /-- The low part of its length. -/
  lo : ctx.lo.toNat = s.length % 2 ^ 29
  /-- The high part of its length. -/
  hi : ctx.hi = UInt32.ofNat (s.length / 2 ^ 29)
  /-- The rest of the message is in the buffer. -/
  buf : slice ctx.buf 0 (s.length % 64) = leftover 64 s

theorem pgrMd5Init_holds (buf : ℕ → Octet) : Holds (pgrMd5Init buf) [] :=
  ⟨rfl, rfl, rfl, rfl⟩

/-- The length is counted. -/
theorem Holds.count {ctx : Md5} {s : List Octet} (h : Holds ctx s) (n : ℕ) :
    (ctx.count n).lo.toNat = (s.length + n) % 2 ^ 29 ∧ (ctx.count n).hi = UInt32.ofNat ((s.length + n) / 2 ^ 29) := by
  have hlo : (UInt32.ofNat ((ctx.lo.toNat + n) % 2 ^ 29)).toNat = (s.length + n) % 2 ^ 29 := by
    rw [UInt32.toNat_ofNat_of_lt' (by rw [UInt32.size]; omega), h.lo]
    omega
  have hhi : ∀ a b c, a + b + c = (s.length + n) / 2 ^ 29 → 
      UInt32.ofNat a + UInt32.ofNat b + UInt32.ofNat c = UInt32.ofNat ((s.length + n) / 2 ^ 29) := fun a b c he => by
    rw [← he, UInt32.ofNat_add, UInt32.ofNat_add]
  have hcarry : UInt32.ofNat ((ctx.lo.toNat + n) % 2 ^ 29) < ctx.lo ↔
      (s.length + n) % 2 ^ 29 < s.length % 2 ^ 29 := by
    rw [UInt32.lt_iff_toNat_lt, hlo, h.lo]
  unfold Md5.count
  simp only [hcarry]
  split_ifs with hlt
  · have := hhi (s.length / 2 ^ 29) 1 (n / 2 ^ 29) (by omega)
    exact ⟨hlo, by rw [← this, h.hi]; rfl⟩
  · have := hhi (s.length / 2 ^ 29) 0 (n / 2 ^ 29) (by omega)
    exact ⟨hlo, by rw [← this, h.hi]; exact congrArg (· + _) (UInt32.add_zero _).symm⟩

@[simp] theorem Md5.count_toRegisters (ctx : Md5) (n : ℕ) : (ctx.count n).toRegisters = ctx.toRegisters := by
  unfold Md5.count
  simp only
  split_ifs <;> rfl

@[simp] theorem Md5.count_buf (ctx : Md5) (n : ℕ) : (ctx.count n).buf = ctx.buf := by
  unfold Md5.count
  simp only
  split_ifs <;> rfl

/-- `body` absorbs the blocks it is given. -/
theorem body_toRegisters (ctx : Md5) (data : List Octet) (size : ℕ) :
    (body ctx data size).toRegisters = absorb 64 MessageDigest.compress (size / 64) ctx.toRegisters data := by
  rw [body, bodyRound_eq]

@[simp] theorem body_lo (ctx : Md5) (data : List Octet) (size : ℕ) : (body ctx data size).lo = ctx.lo := rfl

@[simp] theorem body_hi (ctx : Md5) (data : List Octet) (size : ℕ) : (body ctx data size).hi = ctx.hi := rfl

/-- A block is absorbed. -/
theorem body_block (ctx : Md5) {block : List Octet} (h : block.length = 64) :
    (body ctx block 64).toRegisters = MessageDigest.compress ctx.toRegisters block := by
  rw [body_toRegisters, Nat.div_self (by decide), absorb, absorb, List.take_of_length_le h.le]

theorem Md5.take_spec (ctx : Md5) (data : List Octet) :
    (ctx.take data).toRegisters = absorbAll 64 MessageDigest.compress ctx.toRegisters data ∧
      slice (ctx.take data).buf 0 (data.length % 64) = leftover 64 data ∧ (ctx.take data).lo = ctx.lo ∧
      (ctx.take data).hi = ctx.hi := by
  have hslice : ∀ b : ℕ → Octet,
      slice (blit b 0 (leftover 64 data)) 0 (data.length % 64) = leftover 64 data := fun b => by
    have := slice_blit_self b 0 (leftover 64 data)
    rwa [length_leftover, Nat.zero_add] at this
  unfold Md5.take
  simp only
  split_ifs with hsize
  · refine ⟨?_, hslice _, rfl, rfl⟩
    rw [show ∀ (c : Md5) b, ({ c with buf := b } : Md5).toRegisters = c.toRegisters from fun _ _ => rfl,
      body_toRegisters, Nat.mul_div_cancel_left _ (by decide)]
    rfl
  · rw [absorbAll_of_lt 64 _ (by omega)]
    refine ⟨rfl, ?_, rfl, rfl⟩
    have := hslice ctx.buf
    rwa [leftover_of_lt 64 (by omega)] at this ⊢

/-- **What is held of a message and the next piece.** -/
theorem Holds.update {ctx : Md5} {s : List Octet} (h : Holds ctx s) (d : List Octet) :
    Holds (pgrMd5Update ctx d) (s ++ d) := by
  obtain ⟨hlo, hhi⟩ := h.count d.length
  rw [← List.length_append] at hlo hhi
  have hused : ctx.lo.toNat % 64 = s.length % 64 := by rw [h.lo]; omega
  have hrest := length_leftover 64 s
  have hlen : (s ++ d).length = s.length + d.length := List.length_append
  unfold pgrMd5Update
  simp only [hused]
  split_ifs with hempty hfull
  · -- the piece goes into the buffer
    refine ⟨?_, hlo, hhi, ?_⟩
    · rw [absorbAll_append _ (by decide) _ s d, absorbAll_of_lt 64 _ (by rw [List.length_append]; omega), ← h.regs]
      exact ctx.count_toRegisters d.length
    · have hext := slice_blit_extend (ctx.count d.length).buf d (Nat.zero_le (s.length % 64))
      rw [Md5.count_buf, h.buf] at hext
      rw [leftover_append (by decide), leftover_of_lt 64 (by rw [List.length_append]; omega), ← hext, Md5.count_buf]
      congr 1
      omega
  · -- the buffer is filled, and goes into the registers
    have hext := slice_blit_extend ctx.buf (d.take (64 - s.length % 64)) (Nat.zero_le (s.length % 64))
    rw [h.buf, List.length_take_of_le (by omega), Nat.add_sub_cancel' (by omega)] at hext
    have hblock : (leftover 64 s ++ d.take (64 - s.length % 64)).length = 64 := by
      rw [List.length_append, List.length_take_of_le (by omega)]
      omega
    have hsplit : leftover 64 s ++ d = 
        (leftover 64 s ++ d.take (64 - s.length % 64)) ++ d.drop (64 - s.length % 64) := by
      rw [List.append_assoc, List.take_append_drop]
    simp only [Md5.count_buf, hext]
    obtain ⟨hr, hb, htlo, hthi⟩ := Md5.take_spec (body { ctx.count d.length with
      buf := blit ctx.buf (s.length % 64) (d.take (64 - s.length % 64)) }
      (leftover 64 s ++ d.take (64 - s.length % 64)) 64) (d.drop (64 - s.length % 64))
    refine ⟨?_, (congrArg UInt32.toNat htlo).trans hlo, hthi.trans hhi, ?_⟩
    · rw [hr, body_block _ hblock, absorbAll_append _ (by decide) _ s d, hsplit,
        absorbAll_block _ (by decide) hblock, ← h.regs]
      exact congrArg (fun r => absorbAll 64 _ (MessageDigest.compress r _) _) (ctx.count_toRegisters d.length)
    · rw [leftover_append (by decide), hsplit, leftover_block (by decide) hblock, ← hb, List.length_drop]
      congr 1
      omega
  · have hnil : leftover 64 s = [] := List.length_eq_zero_iff.mp (by omega)
    obtain ⟨hr, hb, htlo, hthi⟩ := (ctx.count d.length).take_spec d
    refine ⟨?_, ?_, ?_, ?_⟩
    · rw [hr, Md5.count_toRegisters, h.regs, absorbAll_append _ (by decide) _ s d, hnil, List.nil_append]
    · rw [htlo, hlo]
    · rw [hthi, hhi]
    · rw [leftover_append (by decide), hnil, List.nil_append, ← hb]
      congr 1
      omega

/-- A word is stored low octet first. -/
theorem storeWord_eq (x : UInt32) : storeWord x = MessageDigest.toOctets 4 x.toNat := by
  have hshift : ∀ (n : UInt32) (k : ℕ), n.toNat % 32 = k → (x >>> n).toUInt8 = UInt8.ofNat (x.toNat / 2 ^ k) := by
    intro n k hn
    rw [← UInt8.toNat_inj, UInt32.toNat_toUInt8, UInt32.toNat_shiftRight, hn, Nat.shiftRight_eq_div_pow,
      UInt8.toNat_ofNat']
  have h0 : x.toUInt8 = UInt8.ofNat x.toNat := by rw [← UInt8.toNat_inj, UInt32.toNat_toUInt8, UInt8.toNat_ofNat']
  simp only [storeWord, MessageDigest.toOctets, h0, hshift 8 8 rfl, hshift 16 16 rfl, hshift 24 24 rfl,
    Nat.div_div_eq_div_mul]
  rfl

/-- The two words that are stored at the end are the length in bits. -/
theorem Holds.length_octets {ctx : Md5} {s : List Octet} (h : Holds ctx s) :
    storeWord (ctx.lo <<< 3) ++ storeWord ctx.hi = MessageDigest.toOctets 8 (8 * s.length) := by
  have hlo : (ctx.lo <<< 3).toNat = 8 * s.length % 256 ^ 4 := by
    rw [UInt32.toNat_shiftLeft, h.lo, show UInt32.toNat 3 % 32 = 3 by rfl, Nat.shiftLeft_eq]
    omega
  have hhi : ctx.hi.toNat = 8 * s.length / 256 ^ 4 % 256 ^ 4 := by
    rw [h.hi, UInt32.toNat_ofNat']
    omega
  rw [storeWord_eq, storeWord_eq, hlo, hhi, MessageDigest.toOctets_mod, MessageDigest.toOctets_mod,
    MessageDigest.toOctets_add 4 4]

/-- The last block is absorbed. -/
theorem Md5.finish_eq (ctx : Md5) {used available : ℕ} {rest : List Octet} (hav : available = 64 - used)
    (hused : used ≤ 56) (hrest : slice ctx.buf 0 used = rest) {c : Md5} {s : List Octet} (h : Holds c s)
    (hlo : ctx.lo = c.lo) (hhi : ctx.hi = c.hi) :
    ctx.finish used available = (absorbAll 64 MessageDigest.compress ctx.toRegisters
      (rest ++ List.replicate (56 - used) 0 ++ MessageDigest.toOctets 8 (8 * s.length))).octets := by
  have hzeros := slice_blit_extend ctx.buf (List.replicate (56 - used) (0 : Octet)) (Nat.zero_le used)
  rw [List.length_replicate, Nat.add_sub_cancel' hused, hrest] at hzeros
  have hblock := slice_blit_extend (blit ctx.buf used (List.replicate (56 - used) 0))
    (MessageDigest.toOctets 8 (8 * s.length)) (Nat.zero_le 56)
  rw [MessageDigest.length_toOctets, hzeros] at hblock
  have hsize : (rest ++ List.replicate (56 - used) 0 ++ MessageDigest.toOctets 8 (8 * s.length)).length = 64 := by
    rw [← hblock, length_slice]
  unfold Md5.finish
  simp only [hlo, hhi, h.length_octets, show available - 8 = 56 - used by omega, hblock]
  rw [storeWord_eq, storeWord_eq, storeWord_eq, storeWord_eq, ← MessageDigest.Registers.octets, body_block _ hsize,
    absorbAll_one _ (by decide) hsize]

/-- **What is held of a message is enough to compute its digest.** -/
theorem Holds.raw {ctx : Md5} {s : List Octet} (h : Holds ctx s) : pgrMd5Raw ctx = MessageDigest.digest s := by
  have hused : ctx.lo.toNat % 64 = s.length % 64 := by rw [h.lo]; omega
  have hrest := length_leftover 64 s
  have h80 := slice_blit_extend ctx.buf [0x80] (Nat.zero_le (s.length % 64))
  rw [h.buf, List.length_singleton] at h80
  rw [MessageDigest.digest, absorbAll_append _ (by decide) _ s, ← h.regs, MessageDigest.padding]
  unfold pgrMd5Raw
  simp only [hused]
  split_ifs with hshort
  · -- the length goes into a block of its own
    have hzeros := slice_blit_extend (blit ctx.buf (s.length % 64) [0x80])
      (List.replicate (64 - (s.length % 64 + 1)) (0 : Octet)) (Nat.zero_le (s.length % 64 + 1))
    rw [List.length_replicate, Nat.add_sub_cancel' (by omega), h80] at hzeros
    have hblock : (leftover 64 s ++ [0x80] ++ List.replicate (64 - (s.length % 64 + 1)) (0 : Octet)).length = 64 := by
      rw [← hzeros, length_slice]
    rw [hzeros, Md5.finish_eq _ (show 64 = 64 - 0 by rfl) (Nat.zero_le 56) (slice_self _ 0) h (by rw [body_lo])
      (by rw [body_hi]),
      body_block _ hblock, ← absorbAll_block _ (by decide) hblock, List.nil_append]
    congr 2
    rw [show (119 - s.length % 64) % 64 = 64 - (s.length % 64 + 1) + (56 - 0) by omega,
      ← List.replicate_append_replicate]
    simp only [List.append_assoc, List.cons_append, List.nil_append]
  · rw [Md5.finish_eq _ rfl (by omega) h80 h (by rfl) (by rfl)]
    congr 2
    rw [show (119 - s.length % 64) % 64 = 56 - (s.length % 64 + 1) by omega]
    simp only [List.append_assoc, List.cons_append, List.nil_append]

/-- A digit of a half octet. -/
theorem hexDigit_eq : ∀ o : Octet, hexDigit (o >>> 4 &&& 0xf) = MessageDigest.hexDigit (o.toNat / 16) ∧
    hexDigit (o &&& 0xf) = MessageDigest.hexDigit (o.toNat % 16) := by
  have h : ∀ i : Fin 256, hexDigit (UInt8.ofNat i >>> 4 &&& 0xf) = MessageDigest.hexDigit (i / 16) ∧
      hexDigit (UInt8.ofNat i &&& 0xf) = MessageDigest.hexDigit (i % 16) := by decide +kernel
  intro o
  have := h ⟨o.toNat, o.toNat_lt⟩
  rwa [UInt8.ofNat_toNat] at this

/-- **`pgr_md5_hex` gives the digest in lower-case hexadecimal.** -/
theorem Holds.hex {ctx : Md5} {s : List Octet} (h : Holds ctx s) :
    pgrMd5Hex ctx = MessageDigest.hex (MessageDigest.digest s) := by
  rw [pgrMd5Hex, h.raw, MessageDigest.hex]
  refine List.flatMap_congr fun o _ => ?_
  rw [(hexDigit_eq o).1, (hexDigit_eq o).2]

/-- What is held of a message and further pieces. -/
theorem Holds.foldl {ctx : Md5} {s : List Octet} (h : Holds ctx s) (chunks : List (List Octet)) :
    Holds (chunks.foldl pgrMd5Update ctx) (s ++ chunks.flatten) := by
  induction chunks generalizing ctx s with
  | nil => simpa using h
  | cons d ds ih =>
    rw [List.foldl_cons, List.flatten_cons, ← List.append_assoc]
    exact ih (h.update d)

/-- **The digest of a message in pieces.** However a message is divided, and whatever is in
the buffer at first, `pgr_md5_raw` gives its digest and `pgr_md5_hex` the digest in lower-case
hexadecimal; so both are the same for every division of the message. -/
theorem digest_of_chunks (buf : ℕ → Octet) (chunks : List (List Octet)) :
    let ctx := chunks.foldl pgrMd5Update (pgrMd5Init buf)
    pgrMd5Raw ctx = MessageDigest.digest chunks.flatten ∧
      pgrMd5Hex ctx = MessageDigest.hex (MessageDigest.digest chunks.flatten) ∧
      ∀ (buf' : ℕ → Octet) (chunks' : List (List Octet)), chunks'.flatten = chunks.flatten →
        pgrMd5Raw (chunks'.foldl pgrMd5Update (pgrMd5Init buf')) = pgrMd5Raw ctx ∧
          pgrMd5Hex (chunks'.foldl pgrMd5Update (pgrMd5Init buf')) = pgrMd5Hex ctx := by
  have hall : ∀ (buf : ℕ → Octet) (chunks : List (List Octet)),
      Holds (chunks.foldl pgrMd5Update (pgrMd5Init buf)) chunks.flatten := fun buf chunks =>
    (pgrMd5Init_holds buf).foldl chunks
  intro ctx
  refine ⟨(hall buf chunks).raw, (hall buf chunks).hex, fun buf' chunks' he => ?_⟩
  have h' := hall buf' chunks'
  rw [he] at h'
  exact ⟨h'.raw.trans (hall buf chunks).raw.symm, h'.hex.trans (hall buf chunks).hex.symm⟩

theorem digest_of_chunks_abc :
    pgrMd5Raw ([[0x61], [], [0x62, 0x63]].foldl pgrMd5Update (pgrMd5Init fun _ => 0xff)) =
      pgrMd5Raw ([[0x61, 0x62, 0x63]].foldl pgrMd5Update (pgrMd5Init fun _ => 0)) :=
  ((digest_of_chunks (fun _ => 0) [[0x61, 0x62, 0x63]]).2.2 (fun _ => 0xff) [[0x61], [], [0x62, 0x63]] rfl).1

end PgRouter.Login
