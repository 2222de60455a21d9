import Mathlib.Data.List.Basic
import PgRouter.Config.Complete

/-!
# Backends

The sections of a configuration that is parsed completely can be read off its tokens (`sections`). A section
may be opened again, and sections of other backends may come in between. However they are arranged, the
parser ends up with one entry for each name, in the order in which the names appear first, and with the
settings of all sections of that name, the last one of each kind winning (`table`, `foldl_runSection`).
-/

namespace PgRouter.Config

open Foundation Wire Text

/-! ### Sections -/

/-- A section `backend <id> {...}`, or `backend default {...}` without a name. -/
structure Section where
  /-- The name. -/
  id : Option CString
  /-- The settings. -/
  settings : List Setting

/-- The sections that tokens are made of, for the parser function `f`, and the settings before them that belong to
the current section. -/
def sections : ParseFn → List Token → List Setting × List Section
  | .top, t1 :: t2 :: ts =>
    if t1.type = .keyword .backend then
      match ts with
      | [] => ([], [])
      | _ :: ts => ([], ⟨name t2, (sections .backend ts).1⟩ :: (sections .backend ts).2)
    else if t1.type = .keyword .tls then sections .tls ts
    else if t1.type = .keyword .health then sections .health ts
    else sections .top ts
  | .top, _ => ([], [])
  | _, [] => ([], [])
  | f, t :: ts =>
    if t.type = .close then ([], (sections .top ts).2)
    else if t.type = .termx then sections f ts
    else
      match ts with
      | [] => ([], [])
      | t2 :: ts =>
        ((if f = .backend then (setting t t2).toList else []) ++ (sections f ts).1,
          (sections f ts).2)

/-- Settings of the backend at `i`. -/
def assign (bs : List Stanza) (i : ℕ) (ss : List Setting) : List Stanza := ss.foldl (fun bs s => bs.modify i s.apply) bs

/-- What a section does to the list of backends. -/
def runSection (bs : List Stanza) (sec : Section) : List Stanza :=
  assign (enter bs sec.id).1 (enter bs sec.id).2 sec.settings

variable {src text : List Octet} {p p' : Parser} {i : ℤ} {ts : List Token}

theorem sections_close {f : ParseFn} {t : Token} (hf : f ≠ .top) (ht : t.type = .close) (ts : List Token) :
    sections f (t :: ts) = ([], (sections .top ts).2) := by
  cases f with
  | top => exact absurd rfl hf
  | _ => rw [sections.eq_def]; exact if_pos ht

theorem sections_termx {f : ParseFn} {t : Token} (hf : f ≠ .top) (ht : t.type = .termx) (ts : List Token) :
    sections f (t :: ts) = sections f ts := by
  have hclose : t.type ≠ .close := by
    rw [ht]
    exact TokenType.noConfusion
  cases f with
  | top => exact absurd rfl hf
  | _ => rw [sections.eq_def]; exact (if_neg hclose).trans (if_pos ht)

theorem sections_pair {f : ParseFn} {t1 t2 : Token} (hf : f ≠ .top) (hclose : t1.type ≠ .close)
    (htermx : t1.type ≠ .termx)
    (ts : List Token) : sections f (t1 :: t2 :: ts) =
      ((if f = .backend then (setting t1 t2).toList else []) ++ (sections f ts).1,
        (sections f ts).2) := by
  cases f with
  | top => exact absurd rfl hf
  | _ => rw [sections.eq_def]; exact (if_neg hclose).trans (if_neg htermx)

theorem sections_top {t1 t2 : Token} (hk : ∀ k, t1.type = .keyword k → k ≠ .backend ∧ k ≠ .tls ∧ k ≠ .health)
    (ts : List Token) : sections .top (t1 :: t2 :: ts) = sections .top ts := by
  rw [sections.eq_def]
  exact (if_neg fun h => (hk _ h).1 rfl).trans
    ((if_neg fun h => (hk _ h).2.1 rfl).trans (if_neg fun h => (hk _ h).2.2 rfl))

theorem sections_stanza {t1 t2 : Token} {f : ParseFn}
    (h : t1.type = .keyword .tls ∧ f = .tls ∨ t1.type = .keyword .health ∧ f = .health) (ts : List Token) :
    sections .top (t1 :: t2 :: ts) = sections f ts := by
  rw [sections.eq_def]
  rcases h with ⟨ht, rfl⟩ | ⟨ht, rfl⟩
  · exact (if_neg (by rw [ht]; decide)).trans (if_pos ht)
  · exact (if_neg (by rw [ht]; decide)).trans ((if_neg (by rw [ht]; decide)).trans (if_pos ht))

theorem sections_backend {t1 t2 t3 : Token} (ht : t1.type = .keyword .backend) (ts : List Token) :
    sections .top (t1 :: t2 :: t3 :: ts) =
      ([], ⟨name t2, (sections .backend ts).1⟩ :: (sections .backend ts).2) := by
  rw [sections.eq_def]
  exact if_pos ht

/-- The parser does what the sections say, and only a section of a backend has settings. -/
theorem rounds_backends (h : Rounds src p i ts p') (f : ParseFn) (hf : p.f = some f) :
    p'.backends = (sections f ts).2.foldl runSection (assign p.backends p.current (sections f ts).1) ∧
      (f ≠ .backend → (sections f ts).1 = []) := by
  induction h generalizing f with
  | stop hnone =>
    rw [hnone] at hf
    cases hf
  | @round p q p' i j g ts hg heval hrest ih =>
    obtain rfl : f = g := Option.some.inj (hf.symm.trans hg)
    have hround := call_round heval
    generalize (f.call p).taken (lexemes.peek src) i = w at *
    cases hround with
    | eos ht =>
      cases hrest with
      | stop _ => exact ⟨rfl, fun _ => rfl⟩
      | round hsome _ _ => cases hsome
    | @backend _ t2 _ _ ht hopen henter hnext =>
      rw [List.cons_append, List.cons_append, List.cons_append, List.nil_append, sections_backend ht]
      refine ⟨?_, fun _ => rfl⟩
      have hlist : (enter p.backends (name t2)).1 = q.backends := congrArg Prod.fst henter.symm
      have hplace : (enter p.backends (name t2)).2 = q.current := congrArg Prod.snd henter.symm
      have hsection : runSection p.backends ⟨name t2, (sections .backend ts).1⟩ =
          assign q.backends q.current (sections .backend ts).1 := by
        rw [runSection, hlist, hplace]
      rw [(ih .backend hnext).1, ← hsection]
      rfl
    | stanza hstanza =>
      rw [List.cons_append, List.cons_append, List.nil_append, sections_stanza hstanza]
      obtain ⟨hbackends, hnil⟩ := ih _ rfl
      exact ⟨hbackends, fun _ => hnil (by rcases hstanza with ⟨-, rfl⟩ | ⟨-, rfl⟩ <;> exact ParseFn.noConfusion)⟩
    | top hk hbackends hnext =>
      rw [List.cons_append, List.cons_append, List.nil_append, sections_top hk]
      obtain ⟨hresult, hnil⟩ := ih .top (hnext.trans hf)
      have hnone := hnil ParseFn.noConfusion
      rw [hnone, hbackends] at hresult
      rw [hnone]
      exact ⟨hresult, fun _ => rfl⟩
    | close hne ht =>
      rw [List.singleton_append, sections_close hne ht]
      obtain ⟨hresult, hnil⟩ := ih .top rfl
      rw [hnil ParseFn.noConfusion] at hresult
      exact ⟨hresult, fun _ => rfl⟩
    | termx ht =>
      rw [List.singleton_append, sections_termx ParseFn.noConfusion ht]
      exact ih _ hf
    | assign hclose htermx hs =>
      rw [List.cons_append, List.cons_append, List.nil_append, sections_pair ParseFn.noConfusion hclose htermx,
        if_pos rfl, hs]
      exact ⟨(ih .backend hf).1, fun hne => absurd rfl hne⟩
    | other hother hclose htermx hbackends hnext =>
      have hne : f ≠ .top ∧ f ≠ .backend := by
        rcases hother with rfl | rfl <;> exact ⟨ParseFn.noConfusion, ParseFn.noConfusion⟩
      rw [List.cons_append, List.cons_append, List.nil_append, sections_pair hne.1 hclose htermx, if_neg hne.2]
      obtain ⟨hresult, hnil⟩ := ih f (hnext.trans hf)
      rw [List.nil_append, hnil hne.2]
      rw [hnil hne.2, hbackends] at hresult
      exact ⟨hresult, fun _ => rfl⟩

/-! ### The list of backends -/

/-- The settings in all sections of a backend, or in those of the defaults. -/
def settingsOf (secs : List Section) (o : Option CString) : List Setting :=
  (secs.filter fun sec => sec.id = o).flatMap Section.settings

/-- The names of the backends, in the order in which they appear first. -/
def ids (secs : List Section) : List CString := (secs.filterMap Section.id).eraseDups

/-- What becomes of a backend. -/
def stanza (secs : List Section) (o : Option CString) : Stanza :=
  (settingsOf secs o).foldl (fun b s => s.apply b) (makeBackend o)

/-- The defaults, and the backends. -/
def keys (secs : List Section) : List (Option CString) := none :: (ids secs).map some

/-- The list of backends with these sections. -/
def table (secs : List Section) : List Stanza := (keys secs).map (stanza secs)

variable {secs : List Section} {sec : Section}

theorem settingsOf_concat (secs : List Section) (sec : Section) (o : Option CString) :
    settingsOf (secs ++ [sec]) o = settingsOf secs o ++ if sec.id = o then sec.settings else [] := by
  rw [settingsOf, List.filter_append, List.flatMap_append, settingsOf]
  by_cases h : sec.id = o
  · rw [if_pos h, List.filter_cons_of_pos (by simpa using h), List.filter_nil, List.flatMap_singleton]
  · rw [if_neg h, List.filter_cons_of_neg (by simpa using h), List.filter_nil, List.flatMap_nil]

theorem stanza_concat (secs : List Section) (sec : Section) (o : Option CString) :
    stanza (secs ++ [sec]) o =
      if sec.id = o then sec.settings.foldl (fun b s => s.apply b) (stanza secs o) else stanza secs o := by
  rw [stanza, settingsOf_concat]
  split_ifs
  · rw [List.foldl_append]
    rfl
  · rw [List.append_nil]
    rfl

theorem apply_id (s : Setting) (b : Stanza) : (s.apply b).id = b.id := by cases s <;> rfl

theorem foldl_apply_id (ss : List Setting) (b : Stanza) : (ss.foldl (fun b s => s.apply b) b).id = b.id := by
  induction ss generalizing b with
  | nil => rfl
  | cons s ss ih => rw [List.foldl_cons, ih, apply_id]

theorem stanza_id (secs : List Section) (o : Option CString) : (stanza secs o).id = o := by
  rw [stanza, foldl_apply_id]
  cases o <;> rfl

/-- Settings of one backend change that one. -/
theorem assign_eq (bs : List Stanza) (i : ℕ) (ss : List Setting) :
    assign bs i ss = bs.modify i fun b => ss.foldl (fun b s => s.apply b) b := by
  induction ss generalizing bs with
  | nil => exact (List.modify_id i bs).symm
  | cons s ss ih =>
    rw [assign, List.foldl_cons]
    refine (ih _).trans ?_
    rw [List.modify_modify_eq]
    rfl

theorem modify_concat {α : Type} (l : List α) (a : α) (f : α → α) : (l ++ [a]).modify l.length f = l ++ [f a] := by
  induction l with
  | nil => rfl
  | cons b l ih => rw [List.cons_append, List.length_cons, List.modify_succ_cons, ih, List.cons_append]

/-- Changing the entry of one key. -/
theorem modify_map {α β : Type} [DecidableEq α] {ks : List α} (hks : ks.Nodup) {a : α} {i : ℕ}
    (hi : ks.findIdx? (fun k => k = a) = some i) (g : α → β) (h : β → β) :
    (ks.map g).modify i h = ks.map fun k => if k = a then h (g k) else g k := by
  induction ks generalizing i with
  | nil => cases hi
  | cons k ks ih =>
    obtain ⟨hnew, hrest⟩ := List.nodup_cons.mp hks
    rw [List.findIdx?_cons] at hi
    by_cases hk : k = a
    · rw [if_pos (decide_eq_true hk)] at hi
      cases hi
      have htail : ks.map (fun k => if k = a then h (g k) else g k) = ks.map g :=
        List.map_congr_left fun x hx => if_neg fun heq => hnew (by rw [hk, ← heq]; exact hx)
      rw [List.map_cons, List.modify_zero_cons, List.map_cons, if_pos hk, htail]
    · rw [if_neg (by simpa using hk)] at hi
      obtain ⟨j, hj, rfl⟩ := Option.map_eq_some_iff.mp hi
      rw [List.map_cons, List.modify_succ_cons, List.map_cons, if_neg hk, ih hrest hj]

theorem mem_ids {id : CString} : id ∈ ids secs ↔ ∃ sec ∈ secs, sec.id = some id := by
  rw [ids, List.mem_eraseDups, List.mem_filterMap]

theorem ids_concat_none (h : sec.id = none) : ids (secs ++ [sec]) = ids secs := by
  rw [ids, List.filterMap_append, List.filterMap_cons_none h, List.filterMap_nil, List.append_nil, ids]

theorem ids_concat_some {id : CString} (h : sec.id = some id) :
    ids (secs ++ [sec]) = ids secs ++ if id ∈ ids secs then [] else [id] := by
  have hremove : [id].removeAll (secs.filterMap Section.id) = if id ∈ ids secs then [] else [id] := by
    rw [ids, List.removeAll]
    split_ifs with hmem
    · rw [List.mem_eraseDups] at hmem
      exact List.filter_cons_of_neg (by simpa using hmem)
    · rw [List.mem_eraseDups] at hmem
      exact List.filter_cons_of_pos (by simpa using hmem)
  rw [ids, List.filterMap_append, List.filterMap_cons_some h, List.filterMap_nil, List.eraseDups_append, hremove]
  split_ifs
  · rfl
  · rfl

theorem ids_nodup (secs : List Section) : (ids secs).Nodup := by
  induction secs using List.reverseRecOn with
  | nil => exact List.nodup_nil
  | append_singleton secs sec ih =>
    cases h : sec.id with
    | none => rwa [ids_concat_none h]
    | some id =>
      rw [ids_concat_some h]
      split_ifs with hmem
      · rwa [List.append_nil]
      · rw [← List.concat_eq_append]
        exact ih.concat hmem

theorem keys_nodup (secs : List Section) : (keys secs).Nodup := by
  refine List.nodup_cons.mpr ⟨fun h => ?_, (ids_nodup secs).map (Option.some_injective _)⟩
  obtain ⟨id, -, hid⟩ := List.mem_map.mp h
  cases hid

theorem table_findIdx? (secs : List Section) (id : CString) :
    (table secs).findIdx? (fun b => b.id = some id) = (keys secs).findIdx? (fun k => k = some id) := by
  rw [table, List.findIdx?_map]
  refine congrArg (List.findIdx? · _) (funext fun k => ?_)
  simp only [Function.comp, stanza_id]

/-- A backend without sections is new. -/
theorem stanza_new {id : CString} (h : id ∉ ids secs) : stanza secs (some id) = makeBackend (some id) := by
  have hnone : secs.filter (fun sec => sec.id = some id) = [] := by
    refine List.filter_eq_nil_iff.mpr fun sec hsec hid => ?_
    exact h (mem_ids.mpr ⟨sec, hsec, by simpa using hid⟩)
  rw [stanza, settingsOf, hnone]
  rfl

/-- A section changes the entry with its name. -/
theorem table_concat (hmem : sec.id ∈ keys secs) :
    table (secs ++ [sec]) = (keys secs).map fun k =>
      if k = sec.id then sec.settings.foldl (fun b s => s.apply b) (stanza secs k) else stanza secs k := by
  have hkeys : ids (secs ++ [sec]) = ids secs := by
    cases h : sec.id with
    | none => exact ids_concat_none h
    | some id =>
      rw [h, keys, List.mem_cons, List.mem_map] at hmem
      obtain ⟨id', hid', heq⟩ := hmem.resolve_left (Option.some_ne_none id)
      obtain rfl := Option.some.inj heq
      rw [ids_concat_some h, if_pos hid', List.append_nil]
  rw [table, keys, hkeys]
  refine List.map_congr_left fun k _ => ?_
  simp only [stanza_concat, eq_comm]

/-- The parser ends up with this list. -/
theorem foldl_runSection (secs : List Section) : secs.foldl runSection [makeBackend none] = table secs := by
  induction secs using List.reverseRecOn with
  | nil => rfl
  | append_singleton secs sec ih =>
    rw [List.foldl_append, ih, List.foldl_cons, List.foldl_nil, runSection, assign_eq]
    cases h : sec.id with
    | none =>
      rw [table_concat (h ▸ List.mem_cons_self), h]
      exact modify_map (keys_nodup secs) (i := 0) rfl _ _
    | some id =>
      rw [enter, table_findIdx?]
      by_cases hmem : id ∈ ids secs
      · have hkey : some id ∈ keys secs := List.mem_cons_of_mem _ (List.mem_map_of_mem hmem)
        obtain ⟨i, hi⟩ : ∃ i, (keys secs).findIdx? (fun k => k = some id) = some i :=
          Option.isSome_iff_exists.mp (List.findIdx?_isSome.trans (List.any_eq_true.mpr ⟨_, hkey, by simp⟩))
        rw [table_concat (h ▸ hkey), h, hi]
        exact modify_map (keys_nodup secs) hi _ _
      · have hkey : ∀ k ∈ keys secs, k ≠ some id := by
          rintro k hk rfl
          obtain ⟨id', hid', heq⟩ := List.mem_map.mp ((List.mem_cons.mp hk).resolve_left (Option.some_ne_none id))
          obtain rfl := Option.some.inj heq
          exact hmem hid'
        have hnone : (keys secs).findIdx? (fun k => k = some id) = none :=
          List.findIdx?_eq_none_iff.mpr fun k hk => decide_eq_false (hkey k hk)
        have hold : (keys secs).map (stanza (secs ++ [sec])) = table secs :=
          List.map_congr_left fun k hk => by rw [stanza_concat, if_neg fun heq => hkey k hk (heq.symm.trans h)]
        have hkeys : keys (secs ++ [sec]) = keys secs ++ [some id] := by
          rw [keys, ids_concat_some h, if_neg hmem, List.map_append]
          rfl
        have htable : table (secs ++ [sec]) =
            table secs ++ [sec.settings.foldl (fun b s => s.apply b) (makeBackend (some id))] := by
          rw [table, hkeys, List.map_append, hold, List.map_singleton, stanza_concat, if_pos h, stanza_new hmem]
        rw [hnone, htable]
        exact modify_concat _ _ _

/-! ### The settings of an entry -/

/-- The value of `tls` in a setting. -/
def Setting.tls? : Setting → Option ℤ
  | tls i => some i
  | _ => none

/-- The value of `lag` in a setting. -/
def Setting.lag? : Setting → Option ℤ
  | lag i => some i
  | _ => none

/-- The value of `weight` in a setting. -/
def Setting.weight? : Setting → Option ℤ
  | weight i => some i
  | _ => none

/-- The last value that the sections of a backend set, or those of the defaults. -/
def lastSet (value : Setting → Option ℤ) (secs : List Section) (o : Option CString) : Option ℤ :=
  ((settingsOf secs o).filterMap value).getLast?

/-- The last setting of each kind wins. -/
theorem foldl_apply (field : Stanza → Option ℤ) (value : Setting → Option ℤ)
    (happly : ∀ s b, field (Setting.apply s b) = (value s).or (field b)) (ss : List Setting) (b : Stanza) :
    field (ss.foldl (fun b s => s.apply b) b) = (ss.filterMap value).getLast?.or (field b) := by
  induction ss using List.reverseRecOn with
  | nil => rfl
  | append_singleton ss s ih =>
    rw [List.foldl_append, List.foldl_cons, List.foldl_nil, happly, ih, List.filterMap_append]
    cases h : value s with
    | none => rw [List.filterMap_cons_none h, List.filterMap_nil, List.append_nil, Option.none_or]
    | some i =>
      rw [List.filterMap_cons_some h, List.filterMap_nil, List.getLast?_concat, Option.some_or, Option.some_or]

theorem stanza_tls (secs : List Section) (o : Option CString) :
    (stanza secs o).tls = (lastSet Setting.tls? secs o).or (makeBackend o).tls :=
  foldl_apply Stanza.tls Setting.tls? (fun s _ => by cases s <;> rfl) _ _

theorem stanza_lag (secs : List Section) (o : Option CString) :
    (stanza secs o).lag = (lastSet Setting.lag? secs o).or (makeBackend o).lag :=
  foldl_apply Stanza.lag Setting.lag? (fun s _ => by cases s <;> rfl) _ _

theorem stanza_weight (secs : List Section) (o : Option CString) :
    (stanza secs o).weight = (lastSet Setting.weight? secs o).or (makeBackend o).weight :=
  foldl_apply Stanza.weight Setting.weight? (fun s _ => by cases s <;> rfl) _ _

/-- What an entry gets: the last value that is set for it, otherwise the last one that is set by default, otherwise
the built-in one. -/
theorem getInt_lastSet (value : Setting → Option ℤ) (secs : List Section) (id : CString) (a builtin : ℤ) :
    getInt a ((lastSet value secs none).or (some builtin)) ((lastSet value secs (some id)).or none) =
      (lastSet value secs (some id)).getD ((lastSet value secs none).getD builtin) := by
  rw [getInt, Option.or_none]
  cases lastSet value secs none <;> rfl

/-! ### The table -/

/-- At the start there is nothing to compare. -/
theorem updateStartup_start (c : Context) (p : Parser) : ∃ c', updateStartup false c p = some c' := by
  simp only [updateStartup, startupOnly_start, Option.bind_eq_bind, Option.bind_some]
  exact ⟨_, rfl⟩

/-- The entry of a backend has its host and its port, and for each setting the last value that any of its sections
sets, otherwise the last one that any section of the defaults sets, otherwise `off`, `1` and `100`. -/
structure Resolved (secs : List Section) (id : CString) (b : Backend) : Prop where
  /-- The host. -/
  hostname : b.hostname = (hostport id .zero).2.hostname
  /-- The port. -/
  port : b.port = (hostport id .zero).2.port
  /-- `tls`. -/
  tls : b.tls = (lastSet Setting.tls? secs (some id)).getD ((lastSet Setting.tls? secs none).getD TLS_OFF)
  /-- `weight`. -/
  weight : b.weight = (lastSet Setting.weight? secs (some id)).getD ((lastSet Setting.weight? secs none).getD 1)
  /-- `lag`. -/
  threshold : b.threshold =
    UInt64.ofInt ((lastSet Setting.lag? secs (some id)).getD ((lastSet Setting.lag? secs none).getD 100))

theorem fill_resolved (p : Parser) (secs : List Section) (id : CString) :
    Resolved secs id (fill p (stanza secs none) (stanza secs (some id)) (hostport id .zero).2) where
  hostname := rfl
  port := rfl
  tls := by
    rw [fill, stanza_tls, stanza_tls]
    exact getInt_lastSet _ _ _ _ _
  weight := by
    rw [fill, stanza_weight, stanza_weight]
    exact getInt_lastSet _ _ _ _ _
  threshold := by
    rw [fill, stanza_lag, stanza_lag]
    exact congrArg UInt64.ofInt (getInt_lastSet _ _ _ _ _)

/-- The table of backends has one entry for each name in the sections, in the order in which the names appear first. -/
theorem backends_resolved (c : Context) (hcompletes : Completes text)
    (hports : ∀ id ∈ ids (sections .top (tokens text)).2, (hostport id .zero).1 = 0) :
    ∃ c', pgrConfigure c text false = some (0, c') ∧
      List.Forall₂ (Resolved (sections .top (tokens text)).2)
        (ids (sections .top (tokens text)).2) c'.backends := by
  obtain ⟨p, hparse, hrounds⟩ := exists_rounds hcompletes
  obtain ⟨hbackends, hnil⟩ := rounds_backends hrounds .top rfl
  generalize hsecs : (sections .top (tokens text)).2 = secs at *
  rw [hnil ParseFn.noConfusion] at hbackends
  have htable : p.backends = table secs := hbackends.trans (foldl_runSection secs)
  obtain ⟨c₁, hc₁⟩ := updateStartup_start (update c p) p
  have hrc : (fillAll p (stanza secs none) (table secs).tail).1 = 0 := fillAll_eq_zero_iff.mpr fun b hb => by
    obtain ⟨o, ho, rfl⟩ := List.mem_map.mp hb
    obtain ⟨id, hid, rfl⟩ := List.mem_map.mp ho
    rw [stanza_id]
    exact hports id hid
  let entries := (table secs).tail.map fun b => fill p (stanza secs none) b (hostport (b.id.getD []) .zero).2
  refine ⟨{ c₁ with backends := entries }, ?_, ?_⟩
  · simp only [pgrConfigure, hparse, hc₁, htable, Option.bind_eq_bind, Option.bind_some, ne_eq, not_true, if_false,
      Bool.false_eq_true]
    rw [show (table secs).headD (makeBackend none) = stanza secs none from rfl, hrc, fillAll_ok hrc]
    rfl
  · have htail : (table secs).tail = (ids secs).map fun id => stanza secs (some id) := by
      rw [table, keys, List.map_cons, List.tail_cons, List.map_map]
      rfl
    change List.Forall₂ _ (ids secs) ((table secs).tail.map _)
    rw [htail, List.map_map, List.forall₂_map_right_iff, List.forall₂_same]
    intro id _
    simp only [Function.comp, stanza_id, Option.getD_some]
    exact fill_resolved p secs id

/-- Two sections of one backend, with another one and the defaults in between. -/
def sampleConfig : List Octet :=
  octets "backend x:1 \x7b weight 2; lag 7; \x7d backend y \x7b \x7d backend default \x7b weight 5; \x7d " ++
    octets "backend x:1 \x7b weight 3; \x7d "

theorem backends_resolved_sample :
    ∃ c', pgrConfigure .zero sampleConfig false = some (0, c') ∧
      List.Forall₂ (Resolved (sections .top (tokens sampleConfig)).2)
        [octets "x:1", octets "y"] c'.backends := by
  have hids : ids (sections .top (tokens sampleConfig)).2 = [octets "x:1", octets "y"] := by
    decide +kernel
  have hcompletes : Completes sampleConfig := completes_of_succeeds (n := 20) (by decide +kernel)
  have hload := backends_resolved .zero hcompletes (by rw [hids]; decide +kernel)
  rw [hids] at hload
  exact hload

end PgRouter.Config
