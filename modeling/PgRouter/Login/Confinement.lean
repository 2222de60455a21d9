import PgRouter.Login.Parameters
import PgRouter.Wire.Recognition

/-!
# What the parameters are read from

`extract_params` reads the parameters of a StartupMessage before anyone is authenticated. It reads one string
after the other, up to a NUL in the place of a string, and does not look at the length of the message.

## The model

For the loop there is the list of the addresses at which it looks at an octet, in order. A string is looked at up
to its NUL; if there is none in the buffer, up to the first address that is behind the buffer.

## What is proved

What is read is confined to the message, and is the same whatever may be behind the message, just when what there
is of the message has its end in it: it begins, behind the version, with a NUL, or two NULs follow each other
(`confined_iff`). Where there are too few octets for a version, the message must go on behind them.
-/

namespace PgRouter.Login

open Foundation Wire

/-! ### The addresses -/

/-- `strlen` and `strdup`, of the string at `x`. -/
def examinedString (m : Mbuf) (x : ℕ) : List ℕ :=
  List.range' x (((slice m.buf x m.len).takeWhile (· ≠ 0)).length + 1)

/-- The loop of `extract_params`. -/
def examinedLoop (m : Mbuf) (x : ℕ) : List ℕ :=
  x :: if m.len ≤ x then []
  else if m.buf x = 0 then []
  else examinedString m x ++ match _hn : cstring m x with
    | none => []
    | some name =>
      let x' := x + name.length + 1
      x' :: if m.len ≤ x' then []
      else if m.buf x' = 0 then []
      else examinedString m x' ++ match cstring m x' with
        | none => []
        | some value => examinedLoop m (x' + value.length + 1)
termination_by m.len - x
decreasing_by
  have := cstring_length _hn
  omega

/-- `extract_params`. `pgr_mbuf_data` looks at the first octet of the message. -/
def examined (m : Mbuf) : List ℕ :=
  m.start :: match pgrMbufData m 4 0 with
  | none => []
  | some x => examinedLoop m x

/-! ### Confinement -/

/-- Where the message ends, or the buffer does. -/
def messageEnd (m : Mbuf) : ℕ := min (m.start + size m) m.len

/-- Another buffer has the same message, whatever is behind it. -/
structure SameMessage (m m' : Mbuf) : Prop where
  /-- The other buffer is in order. -/
  wf : m'.Wf
  /-- The type is the same. -/
  type : pgrMbufMsgtype m' = pgrMbufMsgtype m
  /-- The size is the same. -/
  size : Wire.size m' = Wire.size m
  /-- The octets are the same. -/
  octets : slice m'.buf m'.start (messageEnd m') = slice m.buf m.start (messageEnd m)
  /-- As many of them have been received. -/
  received : min m'.available (Wire.size m') = min m.available (Wire.size m)

/-- `extract_params` stays inside the message. -/
structure Confined (ctx : Context) (c : Connection) (m : Mbuf) : Prop where
  /-- It returns. -/
  returns : (extractParams ctx c m).isSome
  /-- It looks at no octet behind the message. -/
  inside : ∀ a ∈ examined m, a < m.start + size m
  /-- It returns the same, and the same parameters, for the same message. -/
  same : ∀ m', SameMessage m m' → extractParams ctx c m' = extractParams ctx c m

/-- The message has its end in it: behind the version, there is a NUL in the place of a string. Where there are
too few octets for a version, the message goes on behind them. -/
def Ended (m : Mbuf) : Prop :=
  match pgrMbufData m 4 0 with
  | none => m.available < size m
  | some x => [0, 0] <:+: 0 :: slice m.buf x (messageEnd m)

instance (m : Mbuf) : Decidable (Ended m) :=
  match h : pgrMbufData m 4 0 with
  | none => decidable_of_iff (m.available < size m) (by rw [Ended, h])
  | some x => decidable_of_iff ([0, 0] <:+: 0 :: slice m.buf x (messageEnd m)) (by rw [Ended, h])

/-! ### Strings -/

/-- What follows a string, if it is not empty, decides whether there is an end. -/
theorem ended_string {s d : List Octet} (hs : 0 ∉ s) (hne : s ≠ []) :
    [0, 0] <:+: (0 : Octet) :: (s ++ 0 :: d) ↔ [0, 0] <:+: 0 :: d := by
  have hskip : ∀ {a : Octet} {l : List Octet}, a ≠ 0 → ([0, 0] <:+: a :: l ↔ [0, 0] <:+: l) := by
    intro a l ha
    rw [List.infix_cons_iff, List.cons_prefix_cons]
    simp [ha.symm]
  have hall : ∀ {s : List Octet}, 0 ∉ s → ([0, 0] <:+: s ++ 0 :: d ↔ [0, 0] <:+: 0 :: d) := by
    intro s hs
    induction s with
    | nil => rfl
    | cons a s ih =>
      have ha : a ≠ 0 := fun h0 => hs (h0 ▸ List.mem_cons_self)
      rw [List.cons_append, hskip ha, ih fun h => hs (List.mem_cons_of_mem a h)]
  obtain ⟨a, t, rfl⟩ := List.exists_cons_of_ne_nil hne
  have ha : a ≠ 0 := fun h0 => hs (h0 ▸ List.mem_cons_self)
  rw [← hall hs, List.infix_cons_iff]
  simp [List.cons_prefix_cons, ha.symm]

/-- Where there is an end, there is a NUL. -/
theorem zero_mem_of_ended {a : Octet} {d : List Octet} (h : [0, 0] <:+: 0 :: a :: d) : 0 ∈ a :: d := by
  rw [List.infix_cons_iff, List.cons_prefix_cons] at h
  rcases h with ⟨-, h⟩ | h
  · exact h.subset List.mem_cons_self
  · exact h.subset List.mem_cons_self

/-- A string that is not empty, and what follows it. -/
theorem exists_string {a : Octet} {d : List Octet} (ha : a ≠ 0) (h : 0 ∈ a :: d) :
    ∃ s d', a :: d = s ++ 0 :: d' ∧ 0 ∉ s ∧ s ≠ [] := by
  obtain ⟨s, d', heq, hs⟩ := List.eq_append_cons_of_mem h
  refine ⟨s, d', heq, hs, ?_⟩
  rintro rfl
  exact ha (List.cons.inj heq).1

/-- An octet of the buffer. -/
theorem octet_at {m : Mbuf} {x : ℕ} {a : Octet} {w : List Octet} (h : slice m.buf x m.len = a :: w) :
    x < m.len ∧ m.buf x = a := by
  have hlen := congrArg List.length h
  rw [length_slice, List.length_cons] at hlen
  rw [slice_cons _ (by omega)] at h
  exact ⟨by omega, (List.cons.inj h).1⟩

/-- A string of the buffer that is not empty. -/
theorem string_at {m : Mbuf} {x : ℕ} {s w : List Octet} (h : slice m.buf x m.len = s ++ 0 :: w) (hs : 0 ∉ s)
    (hne : s ≠ []) : x < m.len ∧ m.buf x ≠ 0 ∧ cstring m x = some s ∧
      examinedString m x = List.range' x (s.length + 1) ∧ slice m.buf (x + s.length + 1) m.len = w := by
  obtain ⟨hlt, hrest, hhead, -⟩ := slice_string h
  obtain ⟨a, t, rfl⟩ := List.exists_cons_of_ne_nil hne
  have hcstring := cstring_eq h hs
  refine ⟨by omega, ?_, hcstring, ?_, hrest⟩
  · rw [hhead a rfl]
    exact fun h0 => hs (h0 ▸ List.mem_cons_self)
  · have htake := hcstring
    rw [cstring, if_pos (by rw [h]; simp)] at htake
    rw [examinedString, Option.some.inj htake]

/-- A string that does not end within certain octets is looked at behind them. -/
theorem exists_examinedString {m : Mbuf} {x : ℕ} {d rest : List Octet} (h : slice m.buf x m.len = d ++ rest)
    (hd : 0 ∉ d) : ∃ a ∈ examinedString m x, x + d.length ≤ a := by
  have hne : ∀ a ∈ d, decide (a ≠ 0) = true := fun a ha => decide_eq_true fun h0 => hd (h0 ▸ ha)
  refine ⟨_, List.mem_range'_1.mpr ⟨Nat.le_add_right x _, Nat.lt_succ_self _⟩, ?_⟩
  rw [h, List.takeWhile_append_of_pos hne, List.length_append]
  omega

/-! ### The loop -/

/-- The octets behind which the loop does not look determine what it returns. -/
theorem extractLoop_ended (ctx : Context) (c : Connection) {d : List Octet} (hd : [0, 0] <:+: 0 :: d) :
    ∃ r, ∀ (m : Mbuf) (x : ℕ) (rest : List Octet), slice m.buf x m.len = d ++ rest →
      extractLoop ctx m c x = some r ∧ ∀ a ∈ examinedLoop m x, a < x + d.length := by
  induction hn : d.length using Nat.strongRecOn generalizing c d with
  | ind n ih =>
    cases d with
    | nil => exact absurd hd.length_le (by decide)
    | cons a d' =>
      by_cases ha : a = 0
      · -- the list of parameters ends
        refine ⟨(0, c), fun m x rest h => ?_⟩
        obtain ⟨hlt, h0⟩ := octet_at h
        rw [ha] at h0
        rw [extractLoop, if_neg (not_le.mpr hlt), if_pos h0, examinedLoop, if_neg (not_le.mpr hlt), if_pos h0]
        refine ⟨rfl, fun b hb => ?_⟩
        rw [List.mem_singleton.mp hb, ← hn, List.length_cons]
        omega
      · obtain ⟨s, d₁, heq, hs, hne⟩ := exists_string ha (zero_mem_of_ended hd)
        rw [heq] at hd hn ⊢
        rw [ended_string hs hne] at hd
        cases d₁ with
        | nil => exact absurd hd.length_le (by decide)
        | cons b d₂ =>
          by_cases hb : b = 0
          · -- the value is empty
            refine ⟨(-1, { c with params := c.params ++ [⟨s, []⟩] }), fun m x rest h => ?_⟩
            rw [List.append_assoc, List.cons_append] at h
            obtain ⟨hlt, h0, hcstring, hexamined, hrest⟩ := string_at h hs hne
            obtain ⟨hlt', h0'⟩ := octet_at hrest
            rw [hb] at h0'
            rw [extractLoop, if_neg (not_le.mpr hlt), if_neg h0, examinedLoop, if_neg (not_le.mpr hlt), if_neg h0,
              hexamined, hcstring]
            simp only [if_neg (not_le.mpr hlt'), if_pos h0', true_and, List.mem_cons, List.mem_append,
              List.mem_range'_1, List.not_mem_nil, or_false]
            rw [List.length_append, List.length_cons, List.length_cons] at hn
            intro e he
            omega
          · obtain ⟨v, d₃, heq', hv, hne'⟩ := exists_string hb (zero_mem_of_ended hd)
            rw [heq'] at hd hn ⊢
            rw [ended_string hv hne'] at hd
            simp only [List.length_append, List.length_cons] at hn
            obtain ⟨r, hr⟩ := ih d₃.length (by omega) (setParam ctx c s v) hd rfl
            refine ⟨r, fun m x rest h => ?_⟩
            rw [List.append_assoc, List.cons_append, List.append_assoc, List.cons_append] at h
            obtain ⟨hlt, h0, hcstring, hexamined, hrest⟩ := string_at h hs hne
            obtain ⟨hlt', h0', hcstring', hexamined', hrest'⟩ := string_at hrest hv hne'
            obtain ⟨hloop, hin⟩ := hr m _ rest hrest'
            rw [extractLoop, if_neg (not_le.mpr hlt), if_neg h0, examinedLoop, if_neg (not_le.mpr hlt), if_neg h0,
              hexamined, hcstring]
            simp only [if_neg (not_le.mpr hlt'), if_neg h0', hcstring', hexamined', hloop, true_and, List.mem_cons,
              List.mem_append, List.mem_range'_1]
            intro e he
            rcases he with he | he | he | he | he
            · omega
            · omega
            · omega
            · omega
            · have := hin e he
              omega

/-- Without an end the loop looks behind the octets. -/
theorem exists_examinedLoop {d : List Octet} (hd : ¬ [0, 0] <:+: 0 :: d) {m : Mbuf} {x : ℕ} {rest : List Octet}
    (h : slice m.buf x m.len = d ++ rest) : ∃ a ∈ examinedLoop m x, x + d.length ≤ a := by
  induction hn : d.length using Nat.strongRecOn generalizing d x with
  | ind n ih =>
    cases d with
    | nil =>
      rw [examinedLoop]
      exact ⟨x, List.mem_cons_self, by rw [← hn, List.length_nil]; omega⟩
    | cons a d' =>
      obtain ⟨hlt, hfirst⟩ := octet_at h
      have ha : a ≠ 0 := by
        rintro rfl
        exact hd ⟨[], d', rfl⟩
      rw [examinedLoop, if_neg (not_le.mpr hlt), if_neg (hfirst ▸ ha), ← hn]
      by_cases hmem : 0 ∈ a :: d'
      · obtain ⟨s, d₁, heq, hs, hne⟩ := exists_string ha hmem
        rw [heq] at hd hn h ⊢
        rw [ended_string hs hne] at hd
        rw [List.append_assoc, List.cons_append] at h
        obtain ⟨-, -, hcstring, -, hrest⟩ := string_at h hs hne
        rw [hcstring]
        simp only [List.length_append, List.length_cons] at hn ⊢
        cases d₁ with
        | nil => exact ⟨x + s.length + 1, by simp, by rw [List.length_nil]; omega⟩
        | cons b d₂ =>
          have hb : b ≠ 0 := by
            rintro rfl
            exact hd ⟨[], d₂, rfl⟩
          obtain ⟨hlt', hfirst'⟩ := octet_at hrest
          rw [if_neg (not_le.mpr hlt'), if_neg (hfirst' ▸ hb)]
          by_cases hmem' : 0 ∈ b :: d₂
          · obtain ⟨v, d₃, heq', hv, hne'⟩ := exists_string hb hmem'
            rw [heq'] at hd hn hrest ⊢
            rw [ended_string hv hne'] at hd
            rw [List.append_assoc, List.cons_append] at hrest
            obtain ⟨-, -, hcstring', -, hrest'⟩ := string_at hrest hv hne'
            simp only [List.length_append, List.length_cons] at hn ⊢
            obtain ⟨e, he, hle⟩ := ih d₃.length (by omega) hd hrest' rfl
            rw [hcstring']
            exact ⟨e, by simp [he], by omega⟩
          · obtain ⟨e, he, hle⟩ := exists_examinedString hrest hmem'
            rw [List.length_cons] at hle
            exact ⟨e, by simp [he], by rw [List.length_cons]; omega⟩
      · obtain ⟨e, he, hle⟩ := exists_examinedString h hmem
        rw [List.length_cons] at hle
        exact ⟨e, by simp [he], by rw [List.length_cons]; omega⟩

/-- A string whose NUL is in the buffer is looked at in the buffer. -/
theorem examinedString_lt {m : Mbuf} {x : ℕ} {s : CString} (h : cstring m x = some s) :
    ∀ a ∈ examinedString m x, a < m.len := by
  have hlt := cstring_length h
  intro a ha
  unfold cstring at h
  split_ifs at h
  rw [examinedString, Option.some.inj h, List.mem_range'_1] at ha
  omega

/-- A loop that returns looks at octets of the buffer only. -/
theorem examinedLoop_lt (ctx : Context) {c : Connection} {m : Mbuf} {x : ℕ} {r : ℤ × Connection}
    (h : extractLoop ctx m c x = some r) : ∀ a ∈ examinedLoop m x, a < m.len := by
  fun_induction extractLoop ctx m c x with
  | case1 => cases h
  | case2 c x hlt h0 =>
    rw [examinedLoop, if_neg hlt, if_pos h0]
    exact fun a ha => List.mem_singleton.mp ha ▸ not_le.mp hlt
  | case3 => cases h
  | case4 => cases h
  | case5 c x hlt h0 name hname x' hlt' h0' =>
    rw [examinedLoop, if_neg hlt, if_neg h0, hname]
    simp only [x'] at hlt' h0'
    simp only [if_neg hlt', if_pos h0', List.mem_cons, List.mem_append, List.not_mem_nil, or_false]
    rintro a (rfl | ha | rfl)
    · omega
    · exact examinedString_lt hname a ha
    · omega
  | case6 => cases h
  | case7 c x hlt h0 name hname x' hlt' h0' value hvalue ih =>
    rw [examinedLoop, if_neg hlt, if_neg h0, hname]
    simp only [x'] at hlt' h0' hvalue ih h
    simp only [if_neg hlt', if_neg h0', hvalue, List.mem_cons, List.mem_append]
    rintro a (rfl | ha | rfl | ha | ha)
    · omega
    · exact examinedString_lt hname a ha
    · omega
    · exact examinedString_lt hvalue a ha
    · exact ih h a ha

/-! ### The message -/

/-- How many octets precede the parameters: a type octet, if there is one, the length and the version. -/
def preface (m : Mbuf) : ℕ := 4 + (if m.buf m.start = 0 then 0 else 1) + 4

theorem pgrMbufData_preface (m : Mbuf) :
    pgrMbufData m 4 0 = if m.available < preface m then none else some (m.start + preface m) :=
  pgrMbufData_eq (by decide)

/-- A buffer that ends where the parameters begin. -/
def withoutParams (m : Mbuf) : Mbuf := { m with fill := m.start + preface m, len := m.start + preface m }

theorem available_withoutParams (m : Mbuf) : (withoutParams m).available = preface m := Nat.add_sub_cancel_left _ _

/-- What is read of it is not its own. -/
theorem extractParams_withoutParams (ctx : Context) (c : Connection) (m : Mbuf) :
    extractParams ctx c (withoutParams m) = none := by
  have hdata : pgrMbufData (withoutParams m) 4 0 = some (m.start + preface m) := by
    have hav : preface (withoutParams m) ≤ (withoutParams m).available := (available_withoutParams m).ge
    rw [pgrMbufData_preface, if_neg (not_lt.mpr hav)]
    rfl
  rw [extractParams, hdata]
  simp only
  rw [extractLoop]
  exact if_pos le_rfl

/-- The octets of a memory, of which some are looked at first. -/
theorem exists_slice {b : ℕ → Octet} {x e n : ℕ} (h : e ≤ n) : ∃ rest, slice b x n = slice b x e ++ rest := by
  rcases le_total x e with hxe | hxe
  · exact ⟨slice b e n, (slice_append b hxe h).symm⟩
  · exact ⟨slice b x n, by rw [slice_eq_nil b hxe, List.nil_append]⟩

theorem messageEnd_le (m : Mbuf) : messageEnd m ≤ m.len := min_le_right _ _

/-- The first octet is the same. -/
theorem SameMessage.first {m m' : Mbuf} (h : SameMessage m m') (hlt : m.start < messageEnd m) :
    m'.buf m'.start = m.buf m.start := by
  have hoctets := h.octets
  have hlen := congrArg List.length hoctets
  rw [length_slice, length_slice] at hlen
  rw [slice_cons _ hlt, slice_cons _ (by omega)] at hoctets
  exact (List.cons.inj hoctets).1

/-- So is where the parameters begin. -/
theorem SameMessage.preface {m m' : Mbuf} (h : SameMessage m m') (hlt : m.start < messageEnd m) :
    preface m' = preface m := by
  rw [Login.preface, Login.preface, h.first hlt]

/-- What is read of a message that has its end in it is confined to it. -/
theorem confined_of_ended (ctx : Context) (c : Connection) {m : Mbuf} (h : m.Wf)
    (htype : pgrMbufMsgtype m = MSG_STARTUP)
    (hended : Ended m) : Confined ctx c m := by
  have hav : m.available ≠ 0 := fun h0 => by
    rw [pgrMbufMsgtype, if_pos h0] at htype
    cases htype
  unfold Ended at hended
  split at hended
  · rename_i hdata
    have hreturns : extractParams ctx c m = some (0, c) := by rw [extractParams, hdata]
    refine ⟨by rw [hreturns]; rfl, fun a ha => ?_, fun m' hsame => ?_⟩
    · rw [examined, hdata, List.mem_singleton] at ha
      omega
    · -- of the other message there are as many octets
      have hstart : m.start < messageEnd m := by
        have := h.fill_le
        unfold Mbuf.available at hav
        exact lt_min (by omega) (by omega)
      have hreceived := hsame.received
      rw [pgrMbufData_preface] at hdata
      split_ifs at hdata with hshort
      have hshort' : m'.available < preface m' := by
        rw [hsame.size] at hreceived
        rw [hsame.preface hstart]
        omega
      rw [hreturns, extractParams, pgrMbufData_preface, if_pos hshort']
  · rename_i x hdata
    obtain ⟨r, hr⟩ := extractLoop_ended ctx c hended
    obtain ⟨rest, hrest⟩ := exists_slice (b := m.buf) (x := x) (messageEnd_le m)
    obtain ⟨hloop, hin⟩ := hr m x rest hrest
    have hreturns : extractParams ctx c m = some r := by rw [extractParams, hdata]; exact hloop
    -- the message does not end before its parameters begin
    have hx : x < messageEnd m := by
      by_contra hge
      rw [slice_eq_nil _ (not_lt.mp hge)] at hended
      exact absurd hended.length_le (by decide)
    have hend : messageEnd m ≤ m.start + size m := min_le_left _ _
    rw [pgrMbufData_preface] at hdata
    split_ifs at hdata with hshort
    obtain rfl := Option.some.inj hdata
    refine ⟨by rw [hreturns]; rfl, fun a ha => ?_, fun m' hsame => ?_⟩
    · rw [examined, pgrMbufData_preface, if_neg hshort, List.mem_cons] at ha
      rcases ha with rfl | ha
      · omega
      · have hlt := hin a ha
        rw [length_slice] at hlt
        omega
    · have hpreface := hsame.preface (by omega)
      have hreceived := hsame.received
      rw [hsame.size] at hreceived
      have hdrop := congrArg (List.drop (preface m)) hsame.octets
      rw [drop_slice, drop_slice] at hdrop
      obtain ⟨rest', hrest'⟩ := exists_slice (b := m'.buf) (x := m'.start + preface m) (messageEnd_le m')
      rw [hreturns, extractParams, pgrMbufData_preface, hpreface, if_neg (by omega)]
      rw [hdrop] at hrest'
      exact (hr m' _ rest' hrest').1

/-- What is read of one that has not is not. -/
theorem ended_of_confined (ctx : Context) (c : Connection) {m : Mbuf} (h : m.Wf)
    (htype : pgrMbufMsgtype m = MSG_STARTUP)
    (hconfined : Confined ctx c m) : Ended m := by
  have hstart : m.start < m.start + size m := hconfined.inside _ List.mem_cons_self
  unfold Ended
  split
  · rename_i hdata
    by_contra hle
    have hreturns : extractParams ctx c m = some (0, c) := by rw [extractParams, hdata]
    rw [pgrMbufData_preface] at hdata
    split_ifs at hdata with hshort
    have hav : 5 ≤ m.available := by
      by_contra hlt
      rw [size, if_pos (by omega)] at hstart
      omega
    have hfill := h.fill_le
    have hav' := available_withoutParams m
    have hsize : size (withoutParams m) = size m := by
      rw [size, size, if_neg (not_lt.mpr hav), if_neg (by omega)]
      rfl
    have hsame : SameMessage m (withoutParams m) := by
      refine ⟨⟨Nat.le_add_right _ _, le_rfl⟩, ?_, hsize, ?_, by rw [hsize]; omega⟩
      · exact msgtype_of_agree (by omega) (fun i _ => rfl) (htype ▸ by decide)
      · have hend : messageEnd m = m.start + size m := min_eq_left (by unfold Mbuf.available at hle; omega)
        have hend' : messageEnd (withoutParams m) = m.start + size m := by
          rw [messageEnd, hsize]
          exact min_eq_left (Nat.add_le_add_left (by omega) _)
        rw [hend, hend']
        rfl
    have hother := hconfined.same _ hsame
    rw [hreturns, extractParams_withoutParams] at hother
    cases hother
  · rename_i x hdata
    by_contra hnot
    obtain ⟨r, hr⟩ := Option.isSome_iff_exists.mp hconfined.returns
    rw [extractParams, hdata] at hr
    obtain ⟨rest, hrest⟩ := exists_slice (b := m.buf) (x := x) (messageEnd_le m)
    obtain ⟨a, ha, hle⟩ := exists_examinedLoop hnot hrest
    have hin := hconfined.inside a (by rw [examined, hdata]; exact List.mem_cons_of_mem _ ha)
    have hlt := examinedLoop_lt ctx hr a ha
    have hend : a < messageEnd m := lt_min hin hlt
    rw [length_slice] at hle
    omega

/-- **Reading the parameters is confined** to the message just when the message has its end in it. -/
theorem confined_iff (ctx : Context) (c : Connection) {m : Mbuf} (h : m.Wf) (htype : pgrMbufMsgtype m = MSG_STARTUP) :
    Confined ctx c m ↔ Ended m :=
  ⟨ended_of_confined ctx c h htype, confined_of_ended ctx c h htype⟩

/-- A StartupMessage of the user `ab`, and the first octets of another message. -/
theorem confined_iff_user :
    let m := (pgrMbufNew 32).put ([0, 0, 0, 17, 0, 3, 0, 0, 0x75, 0x73, 0x65, 0x72, 0, 0x61, 0x62, 0, 0] ++ [0x70, 0])
    Confined .zero (pgrConnInit (.replicate 4 0)) m := by
  intro m
  exact (confined_iff .zero (pgrConnInit (.replicate 4 0)) ⟨by decide, by decide⟩ (by decide)).mpr (by decide)

/-- Without the last NUL, the parameters are read from what is behind the message. -/
theorem not_confined : ¬ ∀ (ctx : Context) (c : Connection) (m : Mbuf), m.Wf → pgrMbufMsgtype m = MSG_STARTUP →
    Confined ctx c m := by
  intro hall
  have hwf : ((pgrMbufNew 32).put [0, 0, 0, 13, 0, 3, 0, 0, 0x75, 0x73, 0x65, 0x72, 0, 0x61, 0, 0]).Wf :=
    ⟨by decide, by decide⟩
  have hended := ended_of_confined .zero (pgrConnInit (.replicate 4 0)) hwf (by decide) (hall _ _ _ hwf (by decide))
  exact absurd hended (by decide)

end PgRouter.Login
