import PgRouter.Login.Termination
import PgRouter.Wire.Pieces

/-!
# What a client is told during its login

An SSLRequest is answered with `N`, a StartupMessage with a request for a password, and a password with
an AuthenticationOk and a ReadyForQuery, or with an ErrorResponse. All but the first are appended to the
buffer that the messages of the client are read into, and what is first in it is sent.

## What is proved

If the buffer is empty whenever a reply is appended to it, and a client whose password is refused sends
nothing more, then it is sent the replies and nothing else (`output`). Otherwise it is sent what it has
sent: what a client sends together with its StartupMessage comes back in place of the request for a
password (`not_output`), and an ErrorResponse is taken for longer than it is, since the length that it
says counts its type too.

## The model

What a round owes the client is said by what has been received (`owed`), and the replies that a login
owes are collected in a record beside it. A reply is what the functions of `conn.c` put together, the
ErrorResponse with the length that `error_response` writes.
-/

namespace PgRouter.Login

open Foundation Wire

/-! ### Replies -/

/-- A reply of the router. -/
inductive Reply where
  /-- There is no SSL. -/
  | noSsl
  /-- A request for a password. -/
  | challenge (salt : Vector Octet 4)
  /-- An AuthenticationOk, and a ReadyForQuery. -/
  | welcome
  /-- An ErrorResponse. -/
  | refusal (username : Option CString)
  deriving DecidableEq

/-- The octets of a reply. -/
def Reply.octets : Reply → List Octet
  | noSsl => NO_SSL
  | challenge salt => [0x52, 0, 0, 0, 0xc, 0, 0, 0, 0x5] ++ salt.toList
  | welcome => [0x52, 0, 0, 0, 0x8, 0, 0, 0, 0] ++ [0x5a, 0, 0, 0, 0x5, 0x49]
  | refusal username => (errorPieces ERROR INVALID_PASSWORD (failureText username)).flatten

/-- The replies of a login: requests are answered until a password is accepted or refused. -/
def IsHandshake (salt : Vector Octet 4) (replies : List Reply) : Prop :=
  ∃ body last, replies = body ++ last ∧ (∀ r ∈ body, r = .noSsl ∨ r = .challenge salt) ∧
    (last = [] ∨ last = [.welcome] ∨ ∃ username, last = [.refusal username])

namespace Accept

/-- The replies that the round owes the client, `l` being the state after `pgr_mbuf_recv`. -/
def owed (ctx : Context) (stack : ℕ → Octet) (l : Accept) : List Reply :=
  let type := pgrMbufMsgtype l.mbuf
  if type = MSG_SSLREQ then [.noSsl]
  else if type = MSG_CANCEL then []
  else if type = MSG_STARTUP then
    match extractParams ctx l.conn l.mbuf with
    | some (rc, c) => if rc = 0 then [.challenge c.salt] else []
    | none => []
  else if type = chr 'p' then
    match checkAuth stack l.conn l.mbuf with
    | some rc => if rc = 0 then [.welcome] else [.refusal l.conn.username]
    | none => []
  else []

/-- Nothing is in the way of the replies, `l` being the state after `pgr_mbuf_recv`: the buffer is empty
when one is appended, and after an ErrorResponse that fits into the buffer the client sends nothing. -/
def Clear (ctx : Context) (stack : ℕ → Octet) (l : Accept) : Prop :=
  match owed ctx stack l with
  | [.challenge _] | [.welcome] => l.discard.mbuf.window = []
  | [.refusal username] => l.discard.stream = [] ∧ (Reply.refusal username).octets.length ≤ 512
  | _ => True

/-- What a login has owed the client in a step from `l`. -/
def note (ctx : Context) (stack : ℕ → Octet) (l : Accept) (replies : List Reply) : List Reply :=
  if l.stage = .receiving ∧ 0 ≤ l.recv.1 then replies ++ owed ctx stack l.recv.2 else replies

/-! ### Sending a reply -/

/-- What is written on the way from `l` to `l'`, where `d` is owed. -/
structure Told (l : Accept) (d : List Octet) (done : Prop) (l' : Accept) : Prop where
  /-- The descriptor of the connection is the same. -/
  fd : l'.conn.fd = l.conn.fd
  /-- The buffer writes to the same one. -/
  outfd : l'.mbuf.outfd = l.mbuf.outfd
  /-- It is later. -/
  follows : l.kernel.Follows l'.kernel
  /-- It is a part of what is owed, and all of it if that is done, or if no `write` fails. -/
  written : ∃ w, l'.kernel.sent = l.kernel.sent ++ w.map (Prod.mk l.conn.fd) ∧ w <+: d ∧ (done → w = d) ∧
    (l.kernel.WritesAll → w = d)

/-- Nothing is owed, and nothing is written. -/
theorem Moved.told {l l' : Accept} {u : List Octet} (h : Moved l u [] l') (hfd : l'.conn.fd = l.conn.fd)
    (done : Prop) : Told l [] done l' :=
  ⟨hfd, h.outfd, h.follows, [], h.sent, List.prefix_rfl, fun _ => rfl, fun _ => rfl⟩

/-- What is owed is written, and then more. -/
theorem Told.append {l l' l'' : Accept} {d d' : List Octet} {done done' : Prop} (h : Told l d done l') (hdone : done)
    (h' : Told l' d' done' l'') : Told l (d ++ d') done' l'' := by
  obtain ⟨w, hsent, -, hw, -⟩ := h.written
  obtain ⟨w', hsent', hp', hw', hall'⟩ := h'.written
  obtain rfl := hw hdone
  refine ⟨h'.fd.trans h.fd, h'.outfd.trans h.outfd, h.follows.trans h'.follows, w ++ w', ?_, ?_, ?_, ?_⟩
  · rw [hsent', hsent, h.fd, List.map_append, List.append_assoc]
  · exact (List.prefix_append_right_inj w).mpr hp'
  · exact fun hdone' => congrArg (w ++ ·) (hw' hdone')
  · exact fun hall => congrArg (w ++ ·) (hall' (h.follows.writesAll hall))

/-- A `write` has failed. -/
theorem Told.failed {l l' : Accept} {d d' : List Octet} {done done' : Prop} (h : Told l d done l') (hp : d <+: d')
    (hno : ¬ l.kernel.WritesAll) (hdone : ¬ done') : Told l d' done' l' := by
  obtain ⟨w, hsent, hw, -⟩ := h.written
  exact ⟨h.fd, h.outfd, h.follows, w, hsent, hw.trans hp, fun h => absurd h hdone, fun h => absurd h hno⟩

/-- The login returns. -/
theorem Told.ret {l l' : Accept} {d : List Octet} {done : Prop} (h : Told l d done l') (rc : ℤ) :
    Told l d ((l'.ret rc).stage = .receiving) (l'.ret rc) := by
  obtain ⟨w, hsent, hp, -, hall⟩ := h.written
  exact ⟨h.fd, h.outfd, h.follows, w, hsent, hp, nofun, hall⟩

theorem Told.mono {l l' : Accept} {d : List Octet} {done done' : Prop} (h : Told l d done l') (hdone : done' → done) :
    Told l d done' l' := by
  obtain ⟨w, hsent, hp, hw, hall⟩ := h.written
  exact ⟨h.fd, h.outfd, h.follows, w, hsent, hp, fun h => hw (hdone h), hall⟩

/-- A reply that is appended to an empty buffer is written. -/
theorem InOrder.reply_told {l : Accept} (h : l.InOrder) (hout : l.mbuf.outfd = l.conn.fd) (hempty : l.mbuf.window = [])
    {d : List Octet} (h5 : 5 ≤ d.length) (hsize : frameSize d = d.length) (hroom : d.length ≤ 512) :
    Told l d ((l.reply (pgrMbufCat l.mbuf d)).1 = 0) (l.reply (pgrMbufCat l.mbuf d)).2 ∧
      (l.kernel.WritesAll → (l.reply (pgrMbufCat l.mbuf d)).1 = 0) := by
  obtain ⟨hrep, ha, hwin, -⟩ := h.reply_empty hempty h5 hsize hroom
  have hframe : frameSize (l.append d).stream = d.length := by rw [stream_eq, hwin, frameSize_append h5, hsize]
  have hcur : current (l.append d).stream = d := by
    rw [current, hframe, stream_eq, hwin, List.take_left]
  obtain ⟨w, hm, hp, hrc, hall⟩ := ha.relay (by rw [← length_window, hwin]; exact h5)
  rw [hcur] at hm hp hrc hall
  rw [hframe, eq_self_iff_true, true_and] at hrc
  rw [hrep]
  refine ⟨⟨rfl, hm.outfd, hm.follows, w, ?_, hp, hrc.mp, hall⟩, fun hw => hrc.mpr (hall hw)⟩
  rw [hm.sent]
  exact congrArg (fun fd => l.kernel.sent ++ w.map (Prod.mk fd)) hout

/-! ### The ErrorResponse -/

/-- The length that an ErrorResponse says is its own, which leaves none for its type. -/
theorem octets_refusal (username : Option CString) : ∃ rest, (Reply.refusal username).octets =
    0x45 :: (be32 (Reply.refusal username).octets.length ++ rest) ∧ 1 ≤ rest.length := by
  have hlen : (Reply.refusal username).octets.length = 1 + 4 + (1 + ERROR.length + 1) +
    (1 + INVALID_PASSWORD.length + 1) +
      (1 + (failureText username).length + 1) + 1 := by
    simp [Reply.octets, errorPieces, be32]
    omega
  rw [hlen]
  exact ⟨_, rfl, by simp⟩

theorem frameSize_refusal {username : Option CString} (h : (Reply.refusal username).octets.length ≤ 512) :
    5 ≤ (Reply.refusal username).octets.length ∧
      frameSize (Reply.refusal username).octets = (Reply.refusal username).octets.length + 1 := by
  obtain ⟨rest, heq, hrest⟩ := octets_refusal username
  generalize (Reply.refusal username).octets = e at *
  have hlen := congrArg List.length heq
  rw [List.length_cons, List.length_append, show (be32 e.length).length = 4 from rfl] at hlen
  refine ⟨by omega, ?_⟩
  obtain ⟨r, rest, rfl⟩ := List.exists_cons_of_length_pos hrest
  generalize e.length = n at *
  rw [heq]
  simp only [be32, List.cons_append, List.nil_append, frameSize, if_neg (show (0x45 : Octet) ≠ 0 by decide), be24_ofNat]
  omega

/-- A message that says that it is longer than it is is written, if nothing more is sent by the client. -/
theorem InOrder.pieces_told {l : Accept} (h : l.InOrder) (hout : l.mbuf.outfd = l.conn.fd) (hempty : l.stream = [])
    {ps : List (List Octet)} (h5 : 5 ≤ ps.flatten.length) (hsize : frameSize ps.flatten = ps.flatten.length + 1)
    (hroom : ps.flatten.length ≤ 512) :
    Told l ps.flatten False (Accept.relay { l with mbuf := ps.foldl (fun m d => (pgrMbufCat m d).2) l.mbuf }).2 := by
  obtain ⟨hwindow, hrest⟩ := List.append_eq_nil_iff.mp hempty
  have hfill : l.mbuf.fill = 0 := by rw [← length_window_eq h, hwindow]; rfl
  have hput : appendAll l.mbuf ps = l.mbuf.put ps.flatten := appendAll_eq_put (by rw [h.len, hfill]; exact hroom)
  change Told l ps.flatten False (Accept.relay { l with mbuf := appendAll l.mbuf ps }).2
  rw [hput]
  change Told l ps.flatten False (l.append ps.flatten).relay.2
  have hin : (l.append ps.flatten).InOrder := h.append (by rwa [hfill, Nat.zero_add])
  have hwin : (l.append ps.flatten).mbuf.window = ps.flatten := by rw [append_window h, hwindow, List.nil_append]
  have hstream : (l.append ps.flatten).stream = ps.flatten := by
    rw [append_stream h, hwindow, show l.rest = [] from hrest, List.nil_append, List.append_nil]
  have hcur : current ps.flatten = ps.flatten := by rw [current, hsize, List.take_of_length_le (Nat.le_succ _)]
  obtain ⟨w, hm, hp, -, hall⟩ := hin.relay (by rwa [← length_window, hwin])
  rw [hstream, hcur] at hm hp hall
  refine ⟨rfl, hm.outfd, hm.follows, w, ?_, hp, False.elim, hall⟩
  rw [hm.sent]
  exact congrArg (fun fd => l.kernel.sent ++ w.map (Prod.mk fd)) hout

/-- An ErrorResponse that fits is written, if nothing more is sent by the client. -/
theorem InOrder.refuse_told {l : Accept} (h : l.InOrder) (hout : l.mbuf.outfd = l.conn.fd) (hempty : l.stream = [])
    (hroom : (Reply.refusal l.conn.username).octets.length ≤ 512) :
    Told l (Reply.refusal l.conn.username).octets False l.refuse := by
  obtain ⟨h5, hsize⟩ := frameSize_refusal hroom
  exact h.pieces_told hout hempty h5 hsize hroom

/-! ### The rounds -/

theorem setParam_fd (ctx : Context) (c : Connection) (name value : CString) :
    (setParam ctx c name value).fd = c.fd := by
  unfold setParam
  split_ifs <;> rfl

/-- Extracting parameters does not change the descriptor. -/
theorem extractParams_fd {ctx : Context} {c c' : Connection} {m : Mbuf} {rc : ℤ}
    (h : extractParams ctx c m = some (rc, c')) : c'.fd = c.fd := by
  have hloop : ∀ {c x}, extractLoop ctx m c x = some (rc, c') → c'.fd = c.fd := by
    intro c x h
    fun_induction extractLoop ctx m c x with
    | case1 => cases h
    | case2 c x _ _ =>
      cases h
      rfl
    | case3 => cases h
    | case4 => cases h
    | case5 =>
      cases h
      rfl
    | case6 => cases h
    | case7 c x _ _ name _ x' _ hne value hvalue ih => rw [ih h, setParam_fd]
  unfold extractParams at h
  split at h
  · cases h
    rfl
  · exact hloop h

theorem owed_ssl {ctx : Context} {stack : ℕ → Octet} {l : Accept} (type : pgrMbufMsgtype l.mbuf = MSG_SSLREQ) :
    owed ctx stack l = [.noSsl] := by rw [owed, if_pos type]

theorem owed_startup {ctx : Context} (stack : ℕ → Octet) {l : Accept} {rc : ℤ} {c : Connection}
    (type : pgrMbufMsgtype l.mbuf = MSG_STARTUP) (params : extractParams ctx l.conn l.mbuf = some (rc, c)) :
    owed ctx stack l = if rc = 0 then [.challenge c.salt] else [] := by
  rw [owed, type, if_neg (by decide), if_neg (by decide), if_pos rfl, params]

theorem owed_password (ctx : Context) {stack : ℕ → Octet} {l : Accept} {rc : ℤ} (type : pgrMbufMsgtype l.mbuf = chr 'p')
    (auth : checkAuth stack l.conn l.mbuf = some rc) :
    owed ctx stack l = if rc = 0 then [.welcome] else [.refusal l.conn.username] := by
  rw [owed, type, if_neg (by decide), if_neg (by decide), if_neg (by decide), if_pos rfl, auth]

/-- There being no SSL is told in one octet. -/
theorem noSsl_told (l : Accept) :
    Told l NO_SSL ((l.kernel.write l.conn.fd NO_SSL).1.map List.length = some 1) l.noSsl ∧
      (l.kernel.WritesAll → (l.kernel.write l.conn.fd NO_SSL).1.map List.length = some 1) := by
  have hcall : l.kernel.write l.conn.fd NO_SSL = ((l.kernel.write l.conn.fd NO_SSL).1, l.noSsl.kernel) := rfl
  obtain ⟨hp, hw⟩ := Kernel.write_wrote hcall
  have hdone : (l.kernel.write l.conn.fd NO_SSL).1.map List.length = some 1 →
      (l.kernel.write l.conn.fd NO_SSL).1.getD [] = NO_SSL := by
    intro hlen
    obtain ⟨d, hd, hone⟩ := Option.map_eq_some_iff.mp hlen
    rw [hd] at hp ⊢
    exact hp.eq_of_length hone
  have hall : l.kernel.WritesAll → (l.kernel.write l.conn.fd NO_SSL).1.map List.length = some 1 := by
    intro hall
    rw [Kernel.write, Kernel.accept_of_writesAll hall]
    rfl
  exact ⟨⟨rfl, rfl, hw.follows, _, hw.sent, hp, hdone, fun h => hdone (hall h)⟩, hall⟩

/-- A request for a password is written, if there is room for it. -/
theorem InOrder.challenge_told {ctx : Context} {stack : ℕ → Octet} {l : Accept} (h : l.InOrder)
    (hs : Seen l.mbuf l.kernel) (hout : l.mbuf.outfd = l.conn.fd) (hclear : Clear ctx stack l) {c : Connection}
    (type : pgrMbufMsgtype l.mbuf = MSG_STARTUP) (params : extractParams ctx l.conn l.mbuf = some (0, c)) :
    owed ctx stack l = [.challenge c.salt] ∧
      Told l (Reply.challenge c.salt).octets ((l.parsed c).challenge.1 = 0) (l.parsed c).challenge.2 ∧
      (l.kernel.WritesAll → (l.parsed c).challenge.1 = 0) := by
  have howed := (owed_startup stack type params).trans (if_pos rfl)
  have hp := h.parsed hs c
  rw [Clear, howed] at hclear
  obtain ⟨htold, hall⟩ := (h.moved hp).reply_told (hp.outfd.trans (hout.trans (extractParams_fd params).symm)) hclear
    (d := (Reply.challenge c.salt).octets) (by simp [Reply.octets]) (by simp [Reply.octets, frameSize]; rfl)
    (by simp [Reply.octets])
  exact ⟨howed, (hp.told (extractParams_fd params) True).append trivial htold,
    fun hw => hall (hp.follows.writesAll hw)⟩

/-- So are an AuthenticationOk and, behind it, a ReadyForQuery. -/
theorem InOrder.welcome_told {ctx : Context} {stack : ℕ → Octet} {l : Accept} (h : l.InOrder)
    (hs : Seen l.mbuf l.kernel) (hout : l.mbuf.outfd = l.conn.fd) (hclear : Clear ctx stack l)
    (type : pgrMbufMsgtype l.mbuf = chr 'p') (auth : checkAuth stack l.conn l.mbuf = some 0) :
    owed ctx stack l = [.welcome] ∧
      Told l [0x52, 0, 0, 0, 0x8, 0, 0, 0, 0] (l.discard.welcome.1 = 0) l.discard.welcome.2 ∧
      (l.kernel.WritesAll → l.discard.welcome.1 = 0) ∧ (l.discard.welcome.1 = 0 →
        Told l Reply.welcome.octets (l.discard.welcome.2.ready.1 = 0) l.discard.welcome.2.ready.2 ∧
          (l.kernel.WritesAll → l.discard.welcome.2.ready.1 = 0)) := by
  have hd := h.discard hs
  have hin := h.moved hd
  have houtd : l.discard.mbuf.outfd = l.discard.conn.fd := hd.outfd.trans hout
  have howed := (owed_password ctx type auth).trans (if_pos rfl)
  rw [Clear, howed] at hclear
  obtain ⟨htold, hall⟩ := hin.reply_told houtd hclear (d := [0x52, 0, 0, 0, 0x8, 0, 0, 0, 0])
    (by decide) (by decide) (by decide)
  obtain ⟨hin', hempty, -⟩ := hin.reply_done hclear (d := [0x52, 0, 0, 0, 0x8, 0, 0, 0, 0])
    (by decide) (by decide) (by decide)
  have htold := (hd.told rfl True).append trivial htold
  refine ⟨howed, htold, fun hw => hall (hd.follows.writesAll hw), fun hreply => ?_⟩
  obtain ⟨htold', hall'⟩ := hin'.reply_told (by rw [htold.outfd, htold.fd, hout]) hempty
    (d := [0x5a, 0, 0, 0, 0x5, 0x49]) (by decide) (by decide) (by decide)
  exact ⟨htold.append hreply htold', fun hw => hall' (htold.follows.writesAll hw)⟩

/-- **What a round writes** is what it owes, if nothing is in the way. -/
theorem Round.told {ctx : Context} {stack : ℕ → Octet} {l l' : Accept} (hround : Round ctx stack l l') (h : l.InOrder)
    (hs : Seen l.mbuf l.kernel) (hout : l.mbuf.outfd = l.conn.fd) (hclear : Clear ctx stack l) :
    Told l ((owed ctx stack l).flatMap Reply.octets) (l'.stage = .receiving) l' := by
  have hd := h.discard hs
  have hin := h.moved hd
  have houtd : l.discard.mbuf.outfd = l.discard.conn.fd := hd.outfd.trans hout
  cases hround with
  | ssl type write =>
    rw [owed_ssl type, List.flatMap_singleton]
    exact ((hd.told rfl True).append trivial (noSsl_told l.discard).1).mono fun _ => write
  | sslFailed type write =>
    rw [owed_ssl type, List.flatMap_singleton]
    exact ((hd.told rfl True).append trivial (noSsl_told l.discard).1).ret (-1)
  | cancel type =>
    rw [owed, type, if_neg (by decide), if_pos rfl]
    exact hd.told rfl _
  | startup type params reply =>
    obtain ⟨howed, htold, -⟩ := h.challenge_told hs hout hclear type params
    rw [howed, List.flatMap_singleton]
    exact htold.mono fun _ => reply
  | startupFault type params =>
    rw [owed, type, if_neg (by decide), if_neg (by decide), if_pos rfl, params]
    exact ⟨rfl, rfl, .refl _, [], by simp, List.prefix_rfl, fun _ => rfl, fun _ => rfl⟩
  | startupRefused type params refused =>
    rw [owed_startup stack type params, if_neg refused]
    exact ⟨extractParams_fd params, rfl, .refl _, [], by simp [ret], List.prefix_rfl, fun _ => rfl, fun _ => rfl⟩
  | startupFailed type params reply =>
    obtain ⟨howed, htold, -⟩ := h.challenge_told hs hout hclear type params
    rw [howed, List.flatMap_singleton]
    exact htold.ret _
  | passwordFault type auth =>
    rw [owed, type, if_neg (by decide), if_neg (by decide), if_neg (by decide), if_pos rfl, auth]
    exact ⟨rfl, rfl, .refl _, [], by simp, List.prefix_rfl, fun _ => rfl, fun _ => rfl⟩
  | refused type auth wrong =>
    have howed := (owed_password ctx type auth).trans (if_neg wrong)
    rw [Clear, howed] at hclear
    rw [howed, List.flatMap_singleton]
    exact ((hd.told rfl True).append trivial (hin.refuse_told houtd hclear.1 hclear.2)).ret 1
  | welcomeFailed type auth reply =>
    obtain ⟨howed, htold, hall, -⟩ := h.welcome_told hs hout hclear type auth
    rw [howed, List.flatMap_singleton]
    exact (htold.failed (List.prefix_append _ _) (fun hw => reply (hall hw)) not_false).ret _
  | readyFailed type auth reply ready =>
    obtain ⟨howed, -, -, hready⟩ := h.welcome_told hs hout hclear type auth
    rw [howed, List.flatMap_singleton]
    exact (hready reply).1.ret _
  | accepted type auth reply ready =>
    obtain ⟨howed, -, -, hready⟩ := h.welcome_told hs hout hclear type auth
    rw [howed, List.flatMap_singleton]
    exact (hready reply).1.ret 0
  | unknown ssl cancel startup password =>
    rw [owed, if_neg ssl, if_neg cancel, if_neg startup, if_neg password]
    exact ((Moved.refl h).told rfl True).ret _

/-! ### What is owed -/

/-- As long as the loop goes on, requests are answered. -/
theorem Round.asks {ctx : Context} {stack : ℕ → Octet} {salt : Vector Octet 4} {l l' : Accept}
    (hround : Round ctx stack l l') (hsound : Sound ctx salt l) (hs : l.stage = .receiving)
    (hgo : l'.stage = .receiving) : ∀ r ∈ owed ctx stack l, r = .noSsl ∨ r = .challenge salt := by
  intro r hr
  cases hround with
  | ssl type =>
    rw [owed_ssl type] at hr
    exact .inl (List.mem_singleton.mp hr)
  | cancel type =>
    rw [owed, type, if_neg (by decide), if_pos rfl] at hr
    cases hr
  | startup type params =>
    have hsalt := (extractParams_consistent params (hsound.consistent (.inl hs))).1.trans hsound.salt
    rw [owed_startup stack type params, if_pos rfl, hsalt] at hr
    exact .inr (List.mem_singleton.mp hr)
  | sslFailed => cases hgo
  | startupFault => cases hgo
  | startupRefused => cases hgo
  | startupFailed => cases hgo
  | passwordFault => cases hgo
  | refused => cases hgo
  | welcomeFailed => cases hgo
  | readyFailed => cases hgo
  | accepted => cases hgo
  | unknown => cases hgo

theorem isHandshake_last {salt : Vector Octet 4} {replies last : List Reply}
    (h : ∀ r ∈ replies, r = .noSsl ∨ r = .challenge salt) (hlast : IsHandshake salt last) :
    IsHandshake salt (replies ++ last) := by
  obtain ⟨body, last, rfl, hbody, hend⟩ := hlast
  refine ⟨replies ++ body, last, (List.append_assoc ..).symm, fun r hr => ?_, hend⟩
  exact (List.mem_append.mp hr).elim (h r) (hbody r)

/-- What a round owes ends a login, or is the answer to a request. -/
theorem owed_isHandshake {ctx : Context} {stack : ℕ → Octet} {salt : Vector Octet 4} {l : Accept}
    (hsound : Sound ctx salt l) (hs : l.stage = .receiving) : IsHandshake salt (owed ctx stack l) := by
  have hnil : IsHandshake salt [] := ⟨[], [], rfl, nofun, .inl rfl⟩
  have hask : ∀ r, r = .noSsl ∨ r = .challenge salt → IsHandshake salt [r] :=
    fun r hr => ⟨[r], [], rfl, fun r' hr' => List.mem_singleton.mp hr' ▸ hr, .inl rfl⟩
  unfold owed
  simp only
  split_ifs
  · exact hask _ (.inl rfl)
  · exact hnil
  · split
    · rename_i rc c params
      split_ifs with hrc
      · rw [(extractParams_consistent params (hsound.consistent (.inl hs))).1.trans hsound.salt]
        exact hask _ (.inr rfl)
      · exact hnil
    · exact hnil
  · split
    · split_ifs
      · exact ⟨[], [.welcome], rfl, nofun, .inr (.inl rfl)⟩
      · exact ⟨[], [.refusal _], rfl, nofun, .inr (.inr ⟨_, rfl⟩)⟩
    · exact hnil
  · exact hnil

/-! ### Every login -/

/-- The replies that a login has owed the client after `n` steps. -/
def answers (ctx : Context) (stack : ℕ → Octet) (salt : Vector Octet 4) (fd : Fd) (k : Kernel) (n : ℕ) : List Reply :=
  history (step ctx stack) (note ctx stack) (start (pgrConnFrontend (pgrConnInit salt) fd) k) [] n

/-- What has been written is what has been owed. -/
structure Spoken (ctx : Context) (salt : Vector Octet 4) (s l : Accept) (replies : List Reply) : Prop where
  /-- The login is sound. -/
  sound : Sound ctx salt l
  /-- As long as it goes on, it is in order. -/
  inOrder : l.stage = .receiving → l.InOrder
  /-- What has been written since `s`. -/
  told : Told s (replies.flatMap Reply.octets) (l.stage = .receiving) l
  /-- The replies are those of a login. -/
  handshake : IsHandshake salt replies
  /-- As long as it goes on, requests have been answered. -/
  asks : l.stage = .receiving → ∀ r ∈ replies, r = .noSsl ∨ r = .challenge salt

theorem Spoken.step {ctx : Context} {stack : ℕ → Octet} {salt : Vector Octet 4} {s l : Accept} {replies : List Reply}
    (h : Spoken ctx salt s l replies) (hout : s.mbuf.outfd = s.conn.fd)
    (hclear : l.stage = .receiving → Clear ctx stack l.recv.2) :
    Spoken ctx salt s (l.step ctx stack) (note ctx stack l replies) := by
  have hsound := (step_sound stack h.sound).1
  by_cases hs : l.stage = .receiving
  swap
  · -- the login is over
    rw [step_over hs, note, if_neg fun hand => hs hand.1]
    exact h
  obtain ⟨hm, hrc, hseen⟩ := (h.inOrder hs).recv
  have hround : Round ctx stack l.recv.2 (l.step ctx stack) := by
    rcases step_cases ctx stack l with ⟨hno, -⟩ | ⟨-, hlt, -⟩ | ⟨-, -, hround⟩
    · exact absurd hs hno
    · exact absurd hrc (not_le.mpr hlt)
    · exact hround
  have hrecv : Sound ctx salt l.recv.2 := h.sound.same (h.sound.consistent (.inl hs)) rfl
  have hinRecv := (h.inOrder hs).moved hm
  have houtRecv : l.recv.2.mbuf.outfd = l.recv.2.conn.fd := by rw [hm.outfd, h.told.outfd, hout, recv_conn, h.told.fd]
  have htold := hround.told hinRecv hseen houtRecv (hclear hs)
  rw [note, if_pos ⟨hs, hrc⟩]
  refine ⟨hsound, step_inOrder (h.inOrder hs) h.sound, ?_, isHandshake_last (h.asks hs) (owed_isHandshake hrecv hs),
    fun hgo r hr => ?_⟩
  · rw [List.flatMap_append]
    exact h.told.append hs ((hm.told rfl True).append trivial htold)
  · exact (List.mem_append.mp hr).elim (h.asks hs r) (hround.asks hrecv hs hgo r)

/-- **A client is sent the replies** to its requests, and nothing else, if nothing is in their way. -/
theorem output (ctx : Context) (stack : ℕ → Octet) (salt : Vector Octet 4) {fd : Fd} (hfd : 0 ≤ fd) {k : Kernel}
    (hr : k.ReadsOk) (n : ℕ) (hclear : ∀ i < n, (run ctx stack salt fd k i).stage = .receiving →
      Clear ctx stack (run ctx stack salt fd k i).recv.2) :
    IsHandshake salt (answers ctx stack salt fd k n) ∧
      ∃ w, (run ctx stack salt fd k n).kernel.sent = k.sent ++ w.map (Prod.mk fd) ∧
        w <+: (answers ctx stack salt fd k n).flatMap Reply.octets ∧
        ((run ctx stack salt fd k n).stage = .receiving → w = (answers ctx stack salt fd k n).flatMap Reply.octets) ∧
        (k.WritesAll → w = (answers ctx stack salt fd k n).flatMap Reply.octets) := by
  have hout : (start (pgrConnFrontend (pgrConnInit salt) fd) k).mbuf.outfd = fd := by
    have hne : fd ≠ MBUF_SAME_FD := by
      rintro rfl
      exact absurd hfd (by decide)
    exact if_pos hne
  have hstart := start_inOrder (pgrConnFrontend (pgrConnInit salt) fd) hr
  have hspoken := history_induction_of (f := step ctx stack)
    (P := Spoken ctx salt (start (pgrConnFrontend (pgrConnInit salt) fd) k))
    (G := fun l _ => l.stage = .receiving → Clear ctx stack l.recv.2) (fun l replies h hg => h.step hout hg)
    (b := []) ⟨run_sound ctx stack salt fd k 0, fun _ => hstart, (Moved.refl hstart).told rfl _,
    ⟨[], [], rfl, nofun, .inl rfl⟩,
      fun _ => nofun⟩ n hclear
  exact ⟨hspoken.handshake, hspoken.told.written⟩

/-- What `bob` is sent. -/
theorem output_bob :
    ∃ w, (run someContext (fun _ => 0) someSalt 3 bobKernel 2).kernel.sent = [] ++ w.map (Prod.mk 3) ∧
      w = [Reply.challenge someSalt, .welcome].flatMap Reply.octets := by
  have hr : bobKernel.ReadsOk := fun i => by cases i <;> exact ReadChoice.noConfusion
  have hanswers : answers someContext (fun _ => 0) someSalt 3 bobKernel 2 = [.challenge someSalt, .welcome] := by
    decide +kernel
  obtain ⟨-, w, hsent, -, -, hall⟩ := output someContext (fun _ => 0) someSalt (show (0 : Fd) ≤ 3 by decide) hr 2 (by
    intro i hi _
    have howed : owed someContext (fun _ => 0) (run someContext (fun _ => 0) someSalt 3 bobKernel i).recv.2 =
        if i = 0 then [.challenge someSalt] else [.welcome] := by
      interval_cases i <;> decide +kernel
    have hempty : (run someContext (fun _ => 0) someSalt 3 bobKernel i).recv.2.discard.mbuf.window = [] := by
      interval_cases i <;> decide +kernel
    rw [Clear, howed]
    interval_cases i <;> exact hempty)
  rw [hanswers] at hall
  exact ⟨w, hsent, hall fun _ => rfl⟩

/-- What a reply begins with. -/
theorem head?_octets (r : Reply) :
    r.octets.head? = some 0x4e ∨ r.octets.head? = some 0x52 ∨ r.octets.head? = some 0x45 := by
  cases r with
  | noSsl => exact .inl rfl
  | challenge salt => exact .inr (.inl rfl)
  | welcome => exact .inr (.inl rfl)
  | refusal username => exact .inr (.inr rfl)

/-- What a client sends together with its StartupMessage comes back to it. -/
theorem not_output :
    ¬ ∃ replies, IsHandshake someSalt replies ∧
      (run someContext (fun _ => 0) someSalt 3 (Kernel.eager fun _ => bobStartup ++ [0x51, 0, 0, 0, 5, 0])
        1).kernel.delivered 3 <+: replies.flatMap Reply.octets := by
  rintro ⟨replies, -, t, ht⟩
  have hsent : (run someContext (fun _ => 0) someSalt 3 (Kernel.eager fun _ => bobStartup ++ [0x51, 0, 0, 0, 5, 0])
      1).kernel.delivered 3 = [0x51, 0, 0, 0, 5, 0] := by decide +kernel
  rw [hsent] at ht
  have hhead := congrArg List.head? ht
  cases replies with
  | nil => cases hhead
  | cons r replies =>
    rw [List.flatMap_cons, List.head?_append (l := r.octets)] at hhead
    rcases head?_octets r with h | h | h <;> rw [h] at hhead <;> exact absurd (Option.some.inj hhead) (by decide)

end Accept

end PgRouter.Login
