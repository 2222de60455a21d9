import PgRouter.Authdb.Load
import PgRouter.Login.Authentication
import PgRouter.Wire.Pieces
import PgRouter.Wire.Recognition

/-!
# Both sides of a password

To a client, the router is the server, which tests a digest (`check_auth`); to a backend it is a client, which
makes one (`password_message`). The digest is of the hash of the password, as it is in the `authdb`, and of
the salt.

## The model

`password_message` takes 32 octets for the hash, which is a C string: they are those of the string, its NUL,
and what follows in the memory.

## What is proved

The two make the same digest just when the hash is of 32 characters (`agree_iff`), which nothing sees to when
the `authdb` is read.
-/

namespace PgRouter.Login

open Foundation Wire

/-- The 32 octets at the string `pwhash`, with `behind` in the memory behind it. -/
def hashOctets (behind : ℕ → Octet) (pwhash : CString) : List Octet := slice (blit behind 0 (pwhash ++ [0])) 0 32

/-- The token of `password_message`. -/
def passwordToken (stack behind : ℕ → Octet) (pwhash : CString) (salt : Vector Octet 4) : CString :=
  pgrMd5Hex (pgrMd5Update (pgrMd5Update (pgrMd5Init stack) (hashOctets behind pwhash)) salt.toList)

/-- The octets of a PasswordMessage with the token. -/
def passwordOctets (token : CString) : List Octet := [0x70, 0, 0, 0, 0x28, 0x6d, 0x64, 0x35] ++ token ++ [0]

/-- `password_message`. `stack` is what is in the memory of `md5` before it is initialised, and `none` is the
use of a `pwhash` that is `NULL`. -/
def passwordMessage (stack behind : ℕ → Octet) (m : Mbuf) (c : Connection) : Option (ℤ × Mbuf) :=
  c.pwhash.map fun pwhash => pgrMbufCat m (passwordOctets (passwordToken stack behind pwhash c.salt))

/-- Without a hash there is nothing that it could copy. -/
theorem passwordMessage_of_none (stack behind : ℕ → Octet) (m : Mbuf) {c : Connection} (h : c.pwhash = none) :
    passwordMessage stack behind m c = none := by
  rw [passwordMessage, h, Option.map_none]

/-- What `password_message` makes a digest of. -/
def passwordInput (behind : ℕ → Octet) (pwhash : CString) (salt : Vector Octet 4) : List Octet :=
  hashOctets behind pwhash ++ salt.toList

/-- What `check_auth` makes a digest of. -/
def authInput (pwhash : CString) (salt : Vector Octet 4) : List Octet := pwhash ++ salt.toList

theorem passwordToken_eq (stack behind : ℕ → Octet) (pwhash : CString) (salt : Vector Octet 4) :
    passwordToken stack behind pwhash salt =
      MessageDigest.hex (MessageDigest.digest (passwordInput behind pwhash salt)) := by
  have h := ((pgrMd5Init_holds stack).update (hashOctets behind pwhash)).update salt.toList
  rw [List.nil_append] at h
  rw [passwordToken, h.hex, passwordInput]

/-- A hash of 32 characters is what is taken for it. -/
theorem hashOctets_eq (behind : ℕ → Octet) {pwhash : CString} (h : pwhash.length = 32) :
    hashOctets behind pwhash = pwhash := by
  have hall := slice_blit_self behind 0 (pwhash ++ [0])
  rw [List.length_append, h, List.length_singleton] at hall
  have htake := take_slice (blit behind 0 (pwhash ++ [0])) 0 (0 + (32 + 1)) 32
  rw [hall, ← h, List.take_left, h] at htake
  exact htake.symm

/-- Two connections with the same hash and salt agree: they make digests of the same octets, and
`check_auth` accepts the message that `password_message` has appended. -/
structure Agree (stack stack' behind : ℕ → Octet) (pwhash : CString) (salt : Vector Octet 4) : Prop where
  /-- The octets are the same. -/
  input : passwordInput behind pwhash salt = authInput pwhash salt
  /-- The message is accepted. -/
  accepted : ∀ (m : Mbuf) (c : Connection), c.pwhash = some pwhash → c.salt = salt → 41 ≤ m.len - m.fill →
    ∃ d, passwordMessage stack behind m c = some (0, m.put d) ∧
      ∀ (m' : Mbuf) (c' : Connection), c'.pwhash = some pwhash → c'.salt = salt → d <+: m'.window →
        checkAuth stack' c' m' = some 0

theorem length_passwordOctets {token : CString} (h : token.length = 32) : (passwordOctets token).length = 41 := by
  rw [passwordOctets, List.length_append, List.length_append, h]
  rfl

theorem length_passwordToken (stack behind : ℕ → Octet) (pwhash : CString) (salt : Vector Octet 4) :
    (passwordToken stack behind pwhash salt).length = 32 := by
  rw [passwordToken_eq, MessageDigest.length_hex, MessageDigest.length_digest]

/-- `password_message` appends the message, if there is room for it. -/
theorem passwordMessage_eq (stack behind : ℕ → Octet) {m : Mbuf} {c : Connection} {pwhash : CString}
    (hhash : c.pwhash = some pwhash) (hroom : 41 ≤ m.len - m.fill) : passwordMessage stack behind m c =
      some (0, m.put (passwordOctets (passwordToken stack behind pwhash c.salt))) := by
  rw [passwordMessage, hhash, Option.map_some, pgrMbufCat_of_le]
  rwa [length_passwordOctets (length_passwordToken stack behind pwhash c.salt)]

/-- `check_auth` accepts a PasswordMessage with the token that it computes. -/
theorem checkAuth_passwordOctets {stack : ℕ → Octet} {m : Mbuf} {c : Connection} {pwhash : CString}
    (hhash : c.pwhash = some pwhash) (hmsg : passwordOctets (authToken stack pwhash c.salt) <+: m.window) :
    checkAuth stack c m = some 0 := by
  have htoken : (authToken stack pwhash c.salt).length = 32 := by
    rw [authToken_eq, MessageDigest.length_hex, MessageDigest.length_digest]
  have hav := available_of_isPrefix hmsg
  rw [length_passwordOctets htoken] at hav
  have hdata : pgrMbufData m 3 32 = some (m.start + 8) := by
    have hfirst : m.buf m.start = 0x70 := buf_of_isPrefix hmsg (i := 0) rfl
    rw [pgrMbufData_eq (by decide), hfirst]
    exact if_neg (by simp; omega)
  have hslice : slice m.buf (m.start + 8) (m.start + 8 + 32) = authToken stack pwhash c.salt := by
    obtain ⟨rest, hrest⟩ := hmsg
    have htake : (m.window.drop 8).take 32 = authToken stack pwhash c.salt := by
      rw [← hrest, passwordOctets, List.append_assoc, List.append_assoc, ← htoken]
      exact List.take_left
    rw [← htake, Mbuf.window, drop_slice, take_slice, min_eq_right (by unfold Mbuf.available at hav; omega)]
  rw [checkAuth, hhash]
  simp only [hdata, hslice]
  rw [(memcmp_eq_zero_iff rfl).mpr rfl]

/-- A hash of 32 characters makes the two agree. -/
theorem agree_of_length (stack stack' behind : ℕ → Octet) {pwhash : CString} (salt : Vector Octet 4)
    (h : pwhash.length = 32) : Agree stack stack' behind pwhash salt := by
  have hinput : passwordInput behind pwhash salt = authInput pwhash salt := by
    rw [passwordInput, hashOctets_eq behind h, authInput]
  refine ⟨hinput, fun m c hhash hsalt hroom => ⟨_, passwordMessage_eq stack behind hhash hroom, ?_⟩⟩
  rintro m' c' hhash' hsalt' hmsg
  rw [hsalt, passwordToken_eq, hinput, authInput, ← authToken_eq stack', ← hsalt'] at hmsg
  exact checkAuth_passwordOctets hhash' hmsg

/-- One of another length makes them take digests of octets of which there is not the same number. -/
theorem length_of_agree {stack stack' behind : ℕ → Octet} {pwhash : CString} {salt : Vector Octet 4}
    (h : Agree stack stack' behind pwhash salt) : pwhash.length = 32 := by
  have hlen := congrArg List.length h.input
  rw [passwordInput, authInput, List.length_append, List.length_append, hashOctets, length_slice] at hlen
  omega

/-- **The two sides agree** just when the hash is of 32 characters. -/
theorem agree_iff (stack stack' behind : ℕ → Octet) (pwhash : CString) (salt : Vector Octet 4) :
    Agree stack stack' behind pwhash salt ↔ pwhash.length = 32 :=
  ⟨length_of_agree, agree_of_length stack stack' behind salt⟩

/-- The text of an `authdb` in which the user `a` has a hash of 33 characters. -/
def longHash : List Octet := Text.octets "a md5 " ++ List.replicate 33 0x62 ++ [0x0a]

/-- It is read, and the two sides do not agree on it. -/
theorem not_agree : ¬ ∀ (text : List Octet) (ctx : Context) (user pwhash : CString),
    Authdb.pgrAuthdb .zero text = some (0, ctx) → pgrAuthFind ctx user = some pwhash →
      ∀ (stack stack' behind : ℕ → Octet) (salt : Vector Octet 4), Agree stack stack' behind pwhash salt := by
  intro hall
  have hload : (Authdb.pgrAuthdb .zero longHash).bind (fun r => if r.1 = 0 then pgrAuthFind r.2 [0x61] else none) =
      some (List.replicate 33 0x62) := by decide +kernel
  obtain ⟨⟨rc, ctx⟩, hload, hfind⟩ := Option.bind_eq_some_iff.mp hload
  split_ifs at hfind with hrc
  obtain rfl : rc = 0 := hrc
  have hlen := length_of_agree (hall _ ctx _ _ hload hfind (fun _ => 0) (fun _ => 0) (fun _ => 0) (.replicate 4 0))
  exact absurd hlen (by decide)

end PgRouter.Login
