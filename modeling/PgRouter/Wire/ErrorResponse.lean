import PgRouter.Wire.Replies

/-!
# Error responses

The payload of an ErrorResponse is a sequence of fields, and a NUL. A field is a type octet
and a string with its NUL. The field of type `C` holds the code of the error, its SQLSTATE.

`pgr_mbuf_iserror` scans the fields in the buffer. When the message is whole there, the scan
finds what is to be found: it returns `0` just when the first field of type `C` begins with
the code (`scanFields_eq_zero_iff`), whatever follows the message.
-/

namespace PgRouter.Wire

open Foundation

/-! ### Fields -/

/-- A field of an ErrorResponse. -/
structure ErrorField where
  /-- The type. -/
  type : Octet
  /-- The string, without its NUL. -/
  value : List Octet
  /-- A type is not NUL. -/
  type_ne : type ≠ 0
  /-- There is no NUL in the string. -/
  value_ne : ∀ c ∈ value, c ≠ 0

/-- The field as it is transmitted. -/
def ErrorField.octets (f : ErrorField) : List Octet := f.type :: (f.value ++ [0])

/-- The payload of an ErrorResponse. -/
def errorPayload (fields : List ErrorField) : List Octet := fields.flatMap ErrorField.octets ++ [0]

theorem errorPayload_cons (f : ErrorField) (fields : List ErrorField) :
    errorPayload (f :: fields) = f.type :: (f.value ++ 0 :: errorPayload fields) := by
  simp [errorPayload, ErrorField.octets]

/-- The type of a field that holds a code, `'C'`. -/
def CODE_FIELD : Octet := 0x43

/-- The code: the string of the first field of type `C`. -/
def sqlstate (fields : List ErrorField) : Option (List Octet) :=
  (fields.find? fun f => f.type = CODE_FIELD).map ErrorField.value

/-- The code, read off the octets of the payload and whatever follows it. -/
def readSqlstate : List Octet → Option (List Octet)
  | [] => none
  | t :: rest =>
    if t = 0 then none
    else if t = CODE_FIELD then some (rest.takeWhile (· ≠ 0))
    else readSqlstate ((rest.dropWhile (· ≠ 0)).drop 1)
termination_by p => p.length
decreasing_by
  have := (List.dropWhile_sublist (l := rest) fun c : Octet => decide (c ≠ 0)).length_le
  simp only [List.length_drop, List.length_cons]
  omega

/-- A string ends at its NUL. -/
theorem takeWhile_value (f : ErrorField) (rest : List Octet) :
    (f.value ++ 0 :: rest).takeWhile (· ≠ 0) = f.value := by
  rw [List.takeWhile_append_of_pos fun c hc => decide_eq_true (f.value_ne c hc)]
  simp

theorem dropWhile_value (f : ErrorField) (rest : List Octet) :
    ((f.value ++ 0 :: rest).dropWhile (· ≠ 0)).drop 1 = rest := by
  rw [List.dropWhile_append_of_pos fun c hc => decide_eq_true (f.value_ne c hc)]
  simp

theorem sqlstate_cons (f : ErrorField) (fields : List ErrorField) :
    sqlstate (f :: fields) = if f.type = CODE_FIELD then some f.value else sqlstate fields := by
  by_cases hc : f.type = CODE_FIELD <;> simp [sqlstate, hc]

/-- What is read off the payload is the code. -/
theorem readSqlstate_payload (fields : List ErrorField) (rest : List Octet) :
    readSqlstate (errorPayload fields ++ rest) = sqlstate fields := by
  induction fields with
  | nil => rw [show errorPayload [] ++ rest = 0 :: rest from rfl, readSqlstate, if_pos rfl]; rfl
  | cons f fields ih =>
    rw [errorPayload_cons, List.cons_append, List.append_assoc, List.cons_append, readSqlstate, if_neg f.type_ne,
      takeWhile_value, dropWhile_value, ih, sqlstate_cons]

/-! ### The scan -/

/-- `memcmp` returns `0` just when the strings are equal. -/
theorem memcmp_eq_zero_iff {a b : List Octet} (h : a.length = b.length) : memcmp a b = 0 ↔ a = b := by
  induction a generalizing b with
  | nil =>
    cases b with
    | nil => simp [memcmp]
    | cons => simp at h
  | cons x a ih =>
    cases b with
    | nil => simp at h
    | cons y b =>
      rw [memcmp]
      by_cases hxy : x = y
      · rw [if_pos hxy, ih (by simpa using h), hxy]
        simp
      · rw [if_neg hxy]
        have hne : ¬ x.toNat = y.toNat := fun heq => hxy (UInt8.toNat_inj.mp heq)
        simp only [List.cons.injEq, hxy, false_and, iff_false]
        omega

/-- The inner loop stops at the NUL of the string. -/
theorem skipField_value {m : Mbuf} {n len : ℕ} (hlen : n + len < m.fill) (hvalue : ∀ i < len, m.buf (n + i) ≠ 0)
    (hnul : m.buf (n + len) = 0) : skipField m n = n + len := by
  induction len generalizing n with
  | zero =>
    rw [skipField, if_neg]
    · rfl
    · rintro ⟨-, h⟩
      exact h hnul
  | succ len ih =>
    have hnext : n + 1 + len = n + (len + 1) := by omega
    rw [skipField, if_pos ⟨by omega, hvalue 0 (Nat.succ_pos _)⟩, ← hnext]
    refine ih (hnext ▸ hlen) (fun i hi => ?_) (hnext ▸ hnul)
    rw [show n + 1 + i = n + (i + 1) by omega]
    exact hvalue _ (by omega)

/-- The code is a part of the payload. -/
theorem length_sqlstate {fields : List ErrorField} {v : List Octet} (h : sqlstate fields = some v) :
    v.length + 3 ≤ (errorPayload fields).length := by
  induction fields with
  | nil => cases h
  | cons f fields ih =>
    rw [sqlstate_cons] at h
    rw [errorPayload_cons, List.length_cons, List.length_append, List.length_cons]
    split at h
    · cases h
      have : 1 ≤ (errorPayload fields).length := by simp [errorPayload]
      omega
    · have := ih h
      omega

/-- The field at `n` is in the buffer, and so is what follows it. -/
structure FieldAt (m : Mbuf) (n : ℕ) (f : ErrorField) (fields : List ErrorField) : Prop where
  /-- Its type. -/
  type : m.buf n = f.type
  /-- Its string. -/
  value : ∀ i (hi : i < f.value.length), m.buf (n + 1 + i) = f.value[i]
  /-- The NUL of the string. -/
  nul : m.buf (n + 1 + f.value.length) = 0
  /-- The rest of the payload. -/
  rest : ∀ i (hi : i < (errorPayload fields).length),
    m.buf (n + 1 + f.value.length + 1 + i) = (errorPayload fields)[i]

theorem fieldAt {m : Mbuf} {n : ℕ} {f : ErrorField} {fields : List ErrorField}
    (h : ∀ i (hi : i < (errorPayload (f :: fields)).length), m.buf (n + i) = (errorPayload (f :: fields))[i]) :
    FieldAt m n f fields := by
  have hget : ∀ i, i < (errorPayload (f :: fields)).length →
      (f.type :: (f.value ++ 0 :: errorPayload fields))[i]? = some (m.buf (n + i)) := by
    intro i hi
    rw [← errorPayload_cons, List.getElem?_eq_getElem hi, h i hi]
  have hlen : (errorPayload (f :: fields)).length = f.value.length + (errorPayload fields).length + 2 := by
    rw [errorPayload_cons, List.length_cons, List.length_append, List.length_cons]
    omega
  refine ⟨?_, fun i hi => ?_, ?_, fun i hi => ?_⟩
  · exact (Option.some.inj (hget 0 (by omega))).symm
  · have hi' := hget (i + 1) (by omega)
    rw [List.getElem?_cons_succ, List.getElem?_append_left hi, List.getElem?_eq_getElem hi] at hi'
    rw [show n + 1 + i = n + (i + 1) by omega]
    exact (Option.some.inj hi').symm
  · have hi' := hget (f.value.length + 1) (by omega)
    rw [List.getElem?_cons_succ, List.getElem?_append_right le_rfl, Nat.sub_self] at hi'
    rw [show n + 1 + f.value.length = n + (f.value.length + 1) by omega]
    exact (Option.some.inj hi').symm
  · have hi' := hget (f.value.length + 1 + i + 1) (by omega)
    rw [List.getElem?_cons_succ, List.getElem?_append_right (by omega),
      show f.value.length + 1 + i - f.value.length = i + 1 by omega, List.getElem?_cons_succ,
      List.getElem?_eq_getElem hi] at hi'
    rw [show n + 1 + f.value.length + 1 + i = n + (f.value.length + 1 + i + 1) by omega]
    exact (Option.some.inj hi').symm

/-- The five octets behind the type are the code just when the string begins with it: a shorter
string has its NUL among them. -/
theorem FieldAt.code_iff {m : Mbuf} {n : ℕ} {f : ErrorField} {fields : List ErrorField} (h : FieldAt m n f fields)
    {code : List Octet} (hlen : code.length = 5) (hcode : ∀ c ∈ code, c ≠ 0) :
    slice m.buf (n + 1) (n + 6) = code ↔ code <+: f.value := by
  have hslice : ∀ i < 5, (slice m.buf (n + 1) (n + 6))[i]? = some (m.buf (n + 1 + i)) :=
    fun i hi => getElem?_slice _ (by omega)
  constructor
  · intro heq
    have hge : 5 ≤ f.value.length := by
      by_contra hlt
      have hnul := hslice f.value.length (by omega)
      rw [heq, h.nul] at hnul
      exact hcode 0 (List.mem_of_getElem? hnul) rfl
    rw [List.prefix_iff_eq_take, hlen]
    refine List.ext_getElem? fun i => ?_
    by_cases hi : i < 5
    · rw [← heq, hslice i hi, List.getElem?_take_of_lt hi, List.getElem?_eq_getElem (by omega), h.value]
    · rw [List.getElem?_eq_none (by omega), List.getElem?_eq_none (by rw [List.length_take]; omega)]
  · rintro ⟨q, hq⟩
    have hvlen : f.value.length = 5 + q.length := by rw [← hq, List.length_append, hlen]
    refine List.ext_getElem? fun i => ?_
    by_cases hi : i < 5
    · rw [hslice i hi, h.value i (by omega), ← List.getElem?_eq_getElem (by omega), ← hq,
        List.getElem?_append_left (by omega)]
    · rw [List.getElem?_eq_none (by rw [length_slice]; omega), List.getElem?_eq_none (by omega)]

/-- **The scan of a payload that is whole in the buffer** finds the code, for a code of five
octets and no NUL. -/
theorem scanFields_eq_zero_iff {m : Mbuf} {n : ℕ} {fields : List ErrorField}
    (hpayload : ∀ i (hi : i < (errorPayload fields).length), m.buf (n + i) = (errorPayload fields)[i])
    (hfill : n + (errorPayload fields).length ≤ m.fill) {code : List Octet} (hlen : code.length = 5)
    (hcode : ∀ c ∈ code, c ≠ 0) :
    scanFields m code n = 0 ↔ ∃ v, sqlstate fields = some v ∧ code <+: v := by
  induction fields generalizing n with
  | nil =>
    have hend : m.buf n = 0 := hpayload 0 (by decide)
    rw [scanFields]
    simp [hend, sqlstate]
  | cons f fields ih =>
    have hf := fieldAt hpayload
    have hsize : (errorPayload (f :: fields)).length = f.value.length + (errorPayload fields).length + 2 := by
      rw [errorPayload_cons, List.length_cons, List.length_append, List.length_cons]
      omega
    have hskip : skipField m (n + 1) = n + 1 + f.value.length :=
      skipField_value (by omega) (fun i hi => hf.value i hi ▸ f.value_ne _ (List.getElem_mem hi)) hf.nul
    have hrest := ih hf.rest (by omega)
    have htype : (m.buf n).toNat = 'C'.toNat ↔ f.type = CODE_FIELD := by
      rw [hf.type, ← UInt8.toNat_inj]
      rfl
    rw [scanFields, if_pos (by omega), if_neg (by rw [hf.type]; exact f.type_ne), hskip, sqlstate_cons]
    by_cases hc : f.type = CODE_FIELD
    · rw [if_pos hc]
      by_cases hroom : n + 6 < m.fill
      · have hcmp : (slice m.buf (n + 1) (n + 6)).length = code.length := by
          rw [length_slice, hlen]
          omega
        rw [if_pos ⟨htype.mpr hc, hroom⟩, memcmp_eq_zero_iff hcmp, hf.code_iff hlen hcode]
        simp
      · -- neither this string nor one behind it has five octets
        have hshort : ∀ v : List Octet, v.length < 5 → ¬ code <+: v := fun v hv hp => by
          have := hp.length_le
          omega
        rw [if_neg fun h => hroom h.2, hrest]
        have hno : ¬ code <+: f.value := hshort _ (by omega)
        simp only [Option.some.injEq, exists_eq_left', hno, iff_false, not_exists, not_and]
        intro v hv
        have := length_sqlstate hv
        exact hshort v (by omega)
    · rw [if_neg hc, if_neg fun h => hc (htype.mp h.1), hrest]

end PgRouter.Wire
