import PgRouter.Login.Authentication
import PgRouter.Random

/-!
# The salt of the authentication

`pgr_conn_init` draws the salt that a client has to digest with its password hash. It asks
`pgr_rand` for a number from `0` to `0xffffffff`, and that end of the interval does not fit an
`int`: it becomes `-1`.

## What is proved

What is drawn is scaled to an interval from `-1` to `0`, and the conversion to an `int` makes `0` of
all of it (`rnd_eq_zero`). Every connection has the same salt, and the digest that one client has
sent is accepted from another (`salts_never_differ`).
-/

namespace PgRouter.Login

open Wire

/-- `int rnd = pgr_rand(0, 0xffffffff)`, the arguments being converted to `int`. -/
def rnd (draw : ℕ) : Int32 := pgrRand 0 (0xffffffff : UInt32).toInt32 draw

/-- `memcpy(dst->salt, &rnd, 4)`, where the lowest octet of an `int` comes first. -/
def saltOf (x : Int32) : Vector Octet 4 := ⟨(storeWord x.toUInt32).toArray, rfl⟩

/-- `pgr_conn_init`, `draw` being what `rand_r` returns. -/
def connInit (draw : ℕ) : Connection := pgrConnInit (saltOf (rnd draw))

/-- **No draw gives another number than `0`.** -/
theorem rnd_eq_zero {draw : ℕ} (h : draw ≤ RAND_MAX) : rnd draw = 0 := by
  obtain ⟨hlo, hhi⟩ := draw_part h
  have hend : ((0xffffffff : UInt32).toInt32 - 0).toInt = -1 := by decide
  have hstart : (0 : Int32).toInt = 0 := by decide
  have htruncate : truncate ((draw : ℚ) * 1 / RAND_MAX * (-1 : ℤ) + (0 : ℤ) + 1 / 2) = 0 := by
    push_cast
    exact truncate_eq_zero (by linarith) (by linarith)
  rw [rnd, pgrRand, hend, hstart, htruncate]
  rfl

/-- The salt of every connection. -/
theorem connInit_salt {draw : ℕ} (h : draw ≤ RAND_MAX) : (connInit draw).salt = #v[0, 0, 0, 0] := by
  rw [connInit, pgrConnInit, rnd_eq_zero h]
  decide

/-- **Two draws never give two salts**: clients are sent the same challenge, and what proves that one
of them knows a password hash proves it for the other as well. -/
theorem salts_never_differ (d d' : ℕ) (hd : d ≤ RAND_MAX) (hd' : d' ≤ RAND_MAX) :
    ¬ (connInit d).salt ≠ (connInit d').salt ∧
      (∀ m, authMd5Message m (connInit d) = authMd5Message m (connInit d')) ∧
      ∀ stack pwhash, authToken stack pwhash (connInit d).salt = authToken stack pwhash (connInit d').salt := by
  have hsalt : (connInit d).salt = (connInit d').salt := (connInit_salt hd).trans (connInit_salt hd').symm
  refine ⟨not_not.mpr hsalt, fun m => ?_, fun stack pwhash => by rw [hsalt]⟩
  rw [authMd5Message, authMd5Message, hsalt]

/-- The least and the greatest draw. -/
theorem salts_never_differ_ends :
    ¬ (connInit 0).salt ≠ (connInit RAND_MAX).salt ∧
      (∀ m, authMd5Message m (connInit 0) = authMd5Message m (connInit RAND_MAX)) ∧
      ∀ stack pwhash, authToken stack pwhash (connInit 0).salt = authToken stack pwhash (connInit RAND_MAX).salt :=
  salts_never_differ 0 RAND_MAX (Nat.zero_le _) le_rfl

/-- The draws `1` and `2` give the same salt. -/
theorem draws_same_salt : ¬ ∀ d ≤ RAND_MAX, ∀ d' ≤ RAND_MAX, d ≠ d' → (connInit d).salt ≠ (connInit d').salt := by
  intro h
  have hmax : 2 ≤ RAND_MAX := by decide
  exact h 1 (by omega) 2 hmax (by decide) ((connInit_salt (by omega)).trans (connInit_salt hmax).symm)

end PgRouter.Login
