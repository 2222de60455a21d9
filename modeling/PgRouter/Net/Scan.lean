import PgRouter.Config.Configure
import PgRouter.Config.Numbers
import PgRouter.Foundation.Terminated

/-!
# Scanning endpoints

An endpoint is a string `host:port`. `getport` and `gethost` of `net.c` scan it for the endpoints that are listened
on, and `hostport` of `config.c` scans the names of the backends.

## The model

The functions get a pointer into a memory, as far as it may be read, and have no result if they read further. An `int`
is of 32 bits and wraps around. `calloc` may fail, which is a parameter; `hostport` then aborts, and this is left out.

## What is proved

The scans are confined to the string, and the port is the one that it denotes, just when there is a colon and what is
behind it is a numeral of at most 65535 or contains something else than a digit (`scannedExactly_iff`). Without a
colon `gethost` scans on behind the string; a port without digits is `0`; and a greater one is taken as it is, or
wraps around.
-/

namespace PgRouter.Net

open Foundation Wire Text
open Config (Digits number digit denoted)

/-! ### The scanners -/

/-- The loop over the digits of a port, which finds a character that is no digit, or the NUL. -/
def portScan : UInt32 → List Octet → Option (Option UInt32)
  | _, [] => none
  | port, c :: p =>
    if c = 0 then some (some port) else if isdigit c then portScan (port * 10 + digit c) p else some none

/-- An `int`. -/
def asInt (i : UInt32) : ℤ := i.toInt32.toInt

/-- `getport`. -/
def getport (ep : List Octet) : Option ℤ :=
  match scanTo (fun c => c = 0 || c = ch ':') ep with
  | none => none
  | some (_, c, p) =>
    if c ≠ ch ':' then some (-1)
    else
      match portScan 0 p with
      | none => none
      | some none => some (-1)
      | some (some port) => if asInt port > 0xffff then some (-1) else some (asInt port)

/-- `gethost`. `strncpy` copies no further than the NUL. -/
def gethost (calloc : Bool) (ep : List Octet) : Option (Option CString) :=
  match scanTo (fun c => c = ch ':') ep with
  | none => none
  | some (host, _, _) => some (if calloc then some (host.takeWhile (· ≠ 0)) else none)

/-- `hostport`: what it returns, the host, and the port if it is set. -/
def hostport (s : List Octet) : Option (ℤ × CString × Option ℤ) :=
  match scanTo (fun c => c = 0 || c = ch ':') s with
  | none => none
  | some (host, c, p) =>
    if c = 0 then some (0, host, some 5432)
    else
      match portScan 0 p with
      | none => none
      | some none => some (1, host, none)
      | some (some i) => some (0, host, some (asInt i))

/-! ### Ports -/

/-- A text is a decimal numeral that denotes `n`. -/
def Denotes (t : CString) (n : ℕ) : Prop := ∃ d : Digits, d.text = t ∧ number t = n

/-- What `getport` makes of the text behind the colon. -/
def portOf (t : CString) : ℤ :=
  match Config.portLoop 0 t with
  | none => -1
  | some port => if asInt port > 0xffff then -1 else asInt port

variable {s h t : CString} {n : ℕ}

/-- The loop over the memory is the loop over the string. -/
theorem portScan_append (ht : 0 ∉ t) (port : UInt32) (behind : List Octet) :
    portScan port (t ++ 0 :: behind) = some (Config.portLoop port t) := by
  induction t generalizing port with
  | nil => rw [List.nil_append, portScan, if_pos rfl, Config.portLoop]
  | cons c t ih =>
    rw [List.mem_cons, not_or] at ht
    rw [List.cons_append, portScan, if_neg (Ne.symm ht.1), Config.portLoop, ih ht.2]
    split_ifs <;> rfl

/-- It reads a numeral, and nothing else. -/
theorem portLoop_digits (ht : ∀ c ∈ t, isdigit c) (port : UInt32) : Config.portLoop port t = some (denoted port t) := by
  induction t generalizing port with
  | nil => rfl
  | cons c t ih =>
    obtain ⟨hc, ht⟩ := List.forall_mem_cons.mp ht
    rw [Config.portLoop, if_pos hc, ih ht]
    rfl

theorem portLoop_other (ht : ∃ c ∈ t, ¬isdigit c) (port : UInt32) : Config.portLoop port t = none := by
  induction t generalizing port with
  | nil => simp at ht
  | cons c t ih =>
    rw [Config.portLoop]
    split_ifs with hc
    · obtain ⟨d, hd, hno⟩ := ht
      rcases List.mem_cons.mp hd with rfl | hd
      · exact absurd hc hno
      · exact ih ⟨d, hd, hno⟩ _
    · rfl

theorem denotes_iff : Denotes t n ↔ t ≠ [] ∧ (∀ c ∈ t, isdigit c) ∧ number t = n := by
  constructor
  · rintro ⟨d, rfl, hn⟩
    exact ⟨d.ne_nil, fun c hc => (Config.isdigit_iff_mem c).mpr (d.all c hc), hn⟩
  · rintro ⟨hne, hall, hn⟩
    exact ⟨⟨t, hne, fun c hc => (Config.isdigit_iff_mem c).mp (hall c hc)⟩, rfl, hn⟩

/-- A small number is an `int`. -/
theorem asInt_eq {i : UInt32} (h : i.toNat < 2 ^ 31) : asInt i = i.toNat := by
  rw [asInt, Int32.toInt, UInt32.toBitVec_toInt32, BitVec.toInt_eq_toNat_of_lt (by rw [UInt32.toNat_toBitVec]; omega),
    UInt32.toNat_toBitVec]

/-- The loop has the number that is denoted. -/
theorem portLoop_denotes (ht : Denotes t n) (hn : n ≤ 0xffff) : ∃ i, Config.portLoop 0 t = some i ∧ asInt i = n := by
  obtain ⟨-, hall, hnumber⟩ := denotes_iff.mp ht
  have hval : (denoted 0 t).toNat = n := by
    rw [Config.toNat_denoted fun c hc => (Config.isdigit_iff_mem c).mp (hall c hc), hnumber,
      Nat.mod_eq_of_lt (by omega)]
  exact ⟨_, portLoop_digits hall 0, by rw [asInt_eq (by omega), hval]⟩

theorem portOf_denotes (ht : Denotes t n) (hn : n ≤ 0xffff) : portOf t = n := by
  obtain ⟨i, hloop, hi⟩ := portLoop_denotes ht hn
  simp only [portOf, hloop, hi]
  exact if_neg (by omega)

theorem portOf_other (ht : ∃ c ∈ t, ¬isdigit c) : portOf t = -1 := by
  rw [portOf, portLoop_other ht]

/-! ### What the scanners find -/

/-- There is a colon. -/
theorem scanTo_splits (hs : 0 ∉ s) (hsplit : Splits (ch ':') s h t) (behind : List Octet) :
    scanTo (fun c => c = 0 || c = ch ':') (s ++ 0 :: behind) = some (h, ch ':', t ++ 0 :: behind) := by
  rw [hsplit.eq, List.append_assoc, List.cons_append]
  refine scanTo_append (fun c hc => ?_) (by decide) _
  have h0 : c ≠ 0 := fun h0 => hs (by rw [hsplit.eq, ← h0]; exact List.mem_append_left _ hc)
  have hcolon : c ≠ ch ':' := fun heq => hsplit.first (heq ▸ hc)
  simp [h0, hcolon]

/-- There is none. -/
theorem scanTo_end (hs : 0 ∉ s) (hno : ch ':' ∉ s) (behind : List Octet) :
    scanTo (fun c => c = 0 || c = ch ':') (s ++ 0 :: behind) = some (s, 0, behind) := by
  refine scanTo_append (fun c hc => ?_) (by decide) _
  have h0 : c ≠ 0 := fun h0 => hs (h0 ▸ hc)
  have hcolon : c ≠ ch ':' := fun heq => hno (heq ▸ hc)
  simp [h0, hcolon]

theorem zero_notMem (hs : 0 ∉ s) (hsplit : Splits (ch ':') s h t) : 0 ∉ h ∧ 0 ∉ t := by
  rw [hsplit.eq, List.mem_append, List.mem_cons, not_or, not_or] at hs
  exact ⟨hs.1, hs.2.2⟩

theorem getport_splits (hs : 0 ∉ s) (hsplit : Splits (ch ':') s h t) (behind : List Octet) :
    getport (s ++ 0 :: behind) = some (portOf t) := by
  simp only [getport, scanTo_splits hs hsplit, portScan_append (zero_notMem hs hsplit).2, portOf, ne_eq,
    not_true_eq_false, if_false]
  cases Config.portLoop 0 t with
  | none => rfl
  | some i => exact (apply_ite some _ _ _).symm

theorem gethost_splits (hs : 0 ∉ s) (hsplit : Splits (ch ':') s h t) (calloc : Bool) (behind : List Octet) :
    gethost calloc (s ++ 0 :: behind) = some (if calloc then some h else none) := by
  have hscan : scanTo (fun c => c = ch ':') (s ++ 0 :: behind) = some (h, ch ':', t ++ 0 :: behind) := by
    rw [hsplit.eq, List.append_assoc, List.cons_append]
    exact scanTo_append (fun c hc => by simpa using fun heq : c = ch ':' => hsplit.first (heq ▸ hc)) (by decide) _
  have hhost : h.takeWhile (· ≠ 0) = h :=
    List.takeWhile_eq_self_iff.mpr fun c hc => decide_eq_true fun h0 => (zero_notMem hs hsplit).1 (h0 ▸ hc)
  simp only [gethost, hscan, hhost]

/-- Without a colon `gethost` reads on. -/
theorem gethost_end (hno : ch ':' ∉ s) (calloc : Bool) : gethost calloc (s ++ [0]) = none := by
  have hscan : scanTo (fun c => c = ch ':') (s ++ [0]) = none := by
    refine scanTo_eq_none fun c hc => ?_
    rcases List.mem_append.mp hc with hc | hc
    · simpa using fun heq : c = ch ':' => hno (heq ▸ hc)
    · rw [List.mem_singleton.mp hc]
      decide
  rw [gethost, hscan]

/-- On a string `hostport` does what it does there. -/
theorem hostport_eq (hs : 0 ∉ s) (behind : List Octet) (b : Backend) :
    hostport (s ++ 0 :: behind) = some ((Config.hostport s b).1, (Config.hostport s b).2.hostname,
      if (Config.hostport s b).1 = 0 then some (Config.hostport s b).2.port else none) := by
  by_cases hcolon : ch ':' ∈ s
  · obtain ⟨h, t, hsplit⟩ := exists_splits hcolon
    obtain ⟨hhost, hport⟩ := hsplit.takeWhile
    simp only [hostport, scanTo_splits hs hsplit, portScan_append (zero_notMem hs hsplit).2, Config.hostport, hhost,
      hport, show ch ':' ≠ 0 by decide, if_false]
    cases Config.portLoop 0 t with
    | none => rfl
    | some i => rfl
  · have hall : ∀ c ∈ s, decide (c ≠ ch ':') = true := fun c hc => decide_eq_true fun heq => hcolon (heq ▸ hc)
    have hport : s.dropWhile (· ≠ ch ':') = [] := List.dropWhile_eq_nil_iff.mpr hall
    have hhost : s.takeWhile (· ≠ ch ':') = s := List.takeWhile_eq_self_iff.mpr hall
    simp only [hostport, scanTo_end hs hcolon, Config.hostport, hhost, hport, if_true]

/-! ### Safe and exact -/

/-- Behind the first colon of `s` is a numeral that denotes the port `n`. -/
def HasPort (s : CString) (n : ℕ) : Prop := ∃ h t, Splits (ch ':') s h t ∧ Denotes t n ∧ n ≤ 0xffff

/-- The string is scanned safely and exactly. -/
structure ScannedExactly (s : CString) : Prop where
  /-- `getport` looks at nothing behind the string. -/
  getport_confined : Confined 0 getport s
  /-- Nor does `gethost`. -/
  gethost_confined : ∀ calloc, Confined 0 (gethost calloc) s
  /-- Nor does `hostport`. -/
  hostport_confined : Confined 0 hostport s
  /-- `getport` finds the port that is denoted, and nothing else. -/
  getport_exact : ∀ behind p, getport (s ++ 0 :: behind) = some p ↔
    (∃ n : ℕ, HasPort s n ∧ p = n) ∨ (¬∃ n, HasPort s n) ∧ p = -1
  /-- If `hostport` succeeds, it has found this port as well, or there is no colon. -/
  hostport_exact : ∀ behind host port, hostport (s ++ 0 :: behind) = some (0, host, port) →
    (ch ':' ∉ s ∧ port = some 5432) ∨ ∃ n : ℕ, HasPort s n ∧ port = some ↑n

/-- What is behind the first colon is a port, or contains something else than a digit. -/
def PortOrNot (s : CString) : Prop :=
  ∃ h t, Splits (ch ':') s h t ∧ ((∃ n ≤ 0xffff, Denotes t n) ∨ ∃ c ∈ t, ¬isdigit c)

/-- `hostport` takes every number of digits for a port. -/
theorem hostport_digits (hs : 0 ∉ s) (hsplit : Splits (ch ':') s h t) (ht : ∀ c ∈ t, isdigit c) (behind : List Octet) :
    hostport (s ++ 0 :: behind) = some (0, h, some (asInt (denoted 0 t))) := by
  simp only [hostport, scanTo_splits hs hsplit, portScan_append (zero_notMem hs hsplit).2, portLoop_digits ht,
    show ch ':' ≠ 0 by decide, if_false]

/-- A port that is exact is one, or not a number. -/
theorem ScannedExactly.portOrNot (hs : 0 ∉ s) (hexact : ScannedExactly s) : PortOrNot s := by
  have hcolon : ch ':' ∈ s := by
    by_contra hno
    obtain ⟨r, hr⟩ := hexact.gethost_confined true
    cases (gethost_end hno true).symm.trans (hr [])
  obtain ⟨h, t, hsplit⟩ := exists_splits hcolon
  refine ⟨h, t, hsplit, ?_⟩
  by_cases hother : ∃ c ∈ t, ¬isdigit c
  · exact .inr hother
  · have hdigits : ∀ c ∈ t, isdigit c := fun c hc => by_contra fun hno => hother ⟨c, hc, hno⟩
    rcases hexact.hostport_exact [] _ _ (hostport_digits hs hsplit hdigits []) with
      ⟨hno, -⟩ | ⟨n, ⟨h', t', hs', ht, hn⟩, -⟩
    · exact absurd hcolon hno
    · obtain ⟨-, rfl⟩ := hsplit.unique hs'
      exact .inl ⟨n, hn, ht⟩

/-- A number that is denoted has no other characters than digits. -/
theorem Denotes.not_other (ht : Denotes t n) : ¬∃ c ∈ t, ¬isdigit c := by
  rintro ⟨c, hc, hno⟩
  exact hno ((denotes_iff.mp ht).2.1 c hc)

/-- A port, or what is not a number, is scanned exactly. -/
theorem PortOrNot.scannedExactly (hs : 0 ∉ s) (hport : PortOrNot s) : ScannedExactly s := by
  obtain ⟨h, t, hsplit, ht⟩ := hport
  have hcolon : ch ':' ∈ s := by rw [hsplit.eq]; exact List.mem_append_right h List.mem_cons_self
  have hhas : ∀ n, HasPort s n ↔ Denotes t n ∧ n ≤ 0xffff := by
    intro n
    constructor
    · rintro ⟨h', t', hs', ht'⟩
      obtain ⟨-, rfl⟩ := hsplit.unique hs'
      exact ht'
    · exact fun ht' => ⟨h, t, hsplit, ht'⟩
  refine ⟨⟨_, getport_splits hs hsplit⟩, fun calloc => ⟨_, gethost_splits hs hsplit calloc⟩,
    ⟨_, fun behind => hostport_eq hs behind .zero⟩, fun behind p => ?_, fun behind host port hfound => .inr ?_⟩
  · rw [getport_splits hs hsplit, Option.some.injEq]
    simp only [hhas]
    rcases ht with ⟨n, hn, ht⟩ | hother
    · rw [portOf_denotes ht hn]
      constructor
      · exact fun hp => .inl ⟨n, ⟨ht, hn⟩, hp.symm⟩
      · rintro (⟨m, ⟨hm, -⟩, rfl⟩ | ⟨hno, -⟩)
        · rw [← (denotes_iff.mp ht).2.2, ← (denotes_iff.mp hm).2.2]
        · exact absurd ⟨n, ht, hn⟩ hno
    · rw [portOf_other hother]
      have hno : ¬∃ n, Denotes t n ∧ n ≤ 0xffff := fun ⟨n, hn, _⟩ => hn.not_other hother
      constructor
      · exact fun hp => .inr ⟨hno, hp.symm⟩
      · rintro (⟨n, hn, -⟩ | ⟨-, hp⟩)
        · exact absurd ⟨n, hn⟩ hno
        · exact hp.symm
  · rcases ht with ⟨n, hn, ht⟩ | hother
    · have hdigits := (denotes_iff.mp ht).2.1
      obtain ⟨i, hloop, hi⟩ := portLoop_denotes ht hn
      obtain rfl := Option.some.inj ((portLoop_digits hdigits 0).symm.trans hloop)
      rw [hostport_digits hs hsplit hdigits, hi] at hfound
      exact ⟨n, (hhas n).mpr ⟨ht, hn⟩, (Prod.mk.inj (Prod.mk.inj (Option.some.inj hfound)).2).2.symm⟩
    · simp only [hostport, scanTo_splits hs hsplit, portScan_append (zero_notMem hs hsplit).2, portLoop_other hother,
        show ch ':' ≠ 0 by decide, if_false] at hfound
      exact absurd (Prod.mk.inj (Option.some.inj hfound)).1 one_ne_zero

/-- **Endpoints are scanned safely and exactly** just when there is a colon, and what is behind it is a port or not a
number. -/
theorem scannedExactly_iff (hs : 0 ∉ s) : ScannedExactly s ↔ PortOrNot s :=
  ⟨fun h => h.portOrNot hs, fun h => h.scannedExactly hs⟩

/-- The port 5432. -/
theorem scannedExactly_port : ScannedExactly (octets "*:5432") :=
  (scannedExactly_iff (by decide)).mpr ⟨octets "*", octets "5432", ⟨by decide, by decide⟩,
    .inl ⟨5432, by decide, denotes_iff.mpr (by decide +kernel)⟩⟩

/-- A host without a port is not scanned safely. -/
theorem not_scannedExactly_host : ¬∀ s : CString, 0 ∉ s → ScannedExactly s := by
  intro hall
  obtain ⟨r, hr⟩ := (hall (octets "localhost") (by decide)).gethost_confined true
  cases (gethost_end (s := octets "localhost") (by decide) true).symm.trans (hr [])

end PgRouter.Net
