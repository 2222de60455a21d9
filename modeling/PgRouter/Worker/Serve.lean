import PgRouter.Login.Authentication
import PgRouter.Login.Connect
import PgRouter.Login.Startup
import PgRouter.Login.Writes
import PgRouter.Worker.DetermineBackends
import PgRouter.Worker.Writes

/-!
# Serving a client

The whole of `handle_client`: the client logs in, the backends are chosen, the router logs in to both of them in the
name of the client, and then the session begins.

## The model

What becomes of a client is a machine that is put together from those of its parts: the login (`Login.Accept`), the
loops of `pgr_conn_connect` (`Login.Connect`) and the session (`Worker.Session`). What is decided outside is in
`Outside`. The entries of the authentication database do not change, whatever else of the context does. Where
`pgr_connect` is given `NULL` for a host, it uses memory that is not its own. The trace of what has been written
begins with the call, and what is closed and freed behind the label `shutdown` is left out.

## What is proved

Whatever the client and the backends send, however it is divided and whatever fails: nothing is written to a
backend unless the client has sent the digest of the password hash of a user, and what a backend gets begins with
the StartupMessage for that user, with the parameters that the client has sent (`authenticated_first`).
-/

namespace PgRouter.Worker

open Foundation Login Wire

/-- What is decided outside while a client is served. -/
structure Outside where
  /-- The context while the client logs in. -/
  login : Context
  /-- The context when the backends are chosen. -/
  choice : Context
  /-- The number that is drawn then. -/
  r : ℤ
  /-- The salt of the client's connection. -/
  frontendSalt : Vector Octet 4
  /-- The salt of the reader's connection. -/
  readerSalt : Vector Octet 4
  /-- The salt of the writer's connection. -/
  writerSalt : Vector Octet 4
  /-- What the stack contains when a digest is computed. -/
  stack : ℕ → Octet
  /-- What is behind the hash. -/
  behind : ℕ → Octet
  /-- The descriptors that `accept` and `pgr_connect` return. -/
  fds : Descriptors
  /-- Whether the reader can be connected to. -/
  readerUp : Bool
  /-- Whether the writer can be connected to. -/
  writerUp : Bool

/-- Where a call of `handle_client` is. -/
inductive Serve where
  /-- In `pgr_conn_accept`. -/
  | accepting (login : Accept)
  /-- In the loop of `pgr_conn_connect(&reader)`. -/
  | toReader (frontend writer : Connection) (l : Connect)
  /-- In the loop of `pgr_conn_connect(&writer)`. -/
  | toWriter (frontend : Connection) (l : Connect)
  /-- In the session. -/
  | session (frontend : Connection) (s : Session)
  /-- At the label `shutdown`, without a session. -/
  | closed (k : Kernel)
  /-- It has used memory that is not its own. -/
  | fault (k : Kernel)

namespace Serve

/-- The kernel. -/
def kernel : Serve → Kernel
  | accepting login => login.kernel
  | toReader _ _ l => l.kernel
  | toWriter _ l => l.kernel
  | session _ s => s.kernel
  | closed k => k
  | fault k => k

/-- What follows a part of `pgr_conn_connect`: its loop, or what is done when it has returned `0`, or the label
`shutdown`. -/
def connected (loop : Connect → Serve) (ready : Kernel → Serve) : Except Connect.Exit Connect → Serve
  | .ok l => loop l
  | .error (none, l) => fault l.kernel
  | .error (some rc, l) => if rc ≠ 0 then closed l.kernel else ready l.kernel

/-- `pgr_conn_connect` before its loop. `pgr_connect` returns `fd`, if the backend can be connected to. -/
def connect (c : Connection) (fd : Fd) (up : Bool) (k : Kernel) (loop : Connect → Serve) (ready : Kernel → Serve) :
    Serve :=
  match c.hostname with
  | none => fault k
  | some _ => connected loop ready (Connect.start c (if up then fd else -1) k)

variable (o : Outside)

/-- The session begins. -/
def begin (frontend : Connection) (k : Kernel) : Serve := session frontend (.start o.fds k)

/-- `pgr_conn_connect(&writer)`. -/
def connectWriter (frontend writer : Connection) (k : Kernel) : Serve :=
  connect writer o.fds.writer o.writerUp k (toWriter frontend) (begin o frontend)

/-- `pgr_conn_connect(&reader)`. -/
def connectReader (frontend reader writer : Connection) (k : Kernel) : Serve :=
  connect reader o.fds.reader o.readerUp k (toReader frontend writer) (connectWriter o frontend writer)

/-- What follows when `pgr_conn_accept` has returned `0`. -/
def accepted (frontend : Connection) (k : Kernel) : Serve :=
  let (rc, reader, writer) := determineBackends o.choice (pgrConnInit o.readerSalt) (pgrConnInit o.writerSalt) o.r
  if rc ≠ 0 then closed k
  else
    let (rc, reader) := pgrConnCopy reader frontend
    if rc ≠ 0 then closed k
    else
      let (rc, writer) := pgrConnCopy writer frontend
      if rc ≠ 0 then closed k else connectReader o frontend reader writer k

/-- A step of `handle_client`. -/
def step : Serve → Serve
  | accepting login =>
    match login.stage with
    | .receiving => accepting (login.step o.login o.stack)
    | .returned rc => if rc ≠ 0 then closed login.kernel else accepted o login.conn login.kernel
    | .fault => fault login.kernel
  | toReader frontend writer l =>
    connected (toReader frontend writer) (connectWriter o frontend writer) (l.round o.stack o.behind)
  | toWriter frontend l => connected (toWriter frontend) (begin o frontend) (l.round o.stack o.behind)
  | session frontend s => session frontend s.step
  | closed k => closed k
  | fault k => fault k

/-- `handle_client` is called. -/
def start (k : Kernel) : Serve :=
  accepting (.start (pgrConnFrontend (pgrConnInit o.frontendSalt) o.fds.frontend) { k with sent := [] })

/-- What has become of the client after `n` steps. -/
def run (k : Kernel) (n : ℕ) : Serve := (step o)^[n] (start o k)

end Serve

/-! ### The parts of the call -/

namespace Serve

/-- The login of the client, after `i` steps. -/
def login (o : Outside) (k : Kernel) (i : ℕ) : Accept :=
  Accept.run o.login o.stack o.frontendSalt o.fds.frontend { k with sent := [] } i

/-- The client has sent the digest of the password hash of the user that `params` name. -/
def Admitted (o : Outside) (k : Kernel) (params : List Param) : Prop :=
  ∃ user hash, lastValue USER params = some user ∧ pgrAuthFind o.login user = some hash ∧
    ∃ i, (login o k i).stage = .receiving ∧ (login o k i).conn.params = params ∧
      pgrMbufMsgtype (login o k i).recv.2.mbuf = chr 'p' ∧
      HasToken (login o k i).recv.2.mbuf (MessageDigest.hex (MessageDigest.digest (hash ++ o.frontendSalt.toList)))

/-- What a backend has been sent are the first octets of the StartupMessage, or begins with it, if there is room for
it in the buffer. -/
def Opening (params : List Param) (d : List Octet) : Prop :=
  (startupOctets params).length ≤ 512 → d <+: startupOctets params ∨ startupOctets params <+: d

section

variable {o : Outside} {k : Kernel}

/-- A login writes to the client. -/
theorem login_stays (o : Outside) (k : Kernel) (n : ℕ) : Accept.Stays (login o k 0) (login o k n) := by
  have hwf : (login o k 0).mbuf.Wf := ⟨le_rfl, Nat.zero_le _⟩
  have hfd : (login o k 0).mbuf.outfd = (login o k 0).conn.fd := if_pos (ne_same_fd o.fds.frontend_nonneg)
  induction n with
  | zero => exact ⟨.refl hwf _, rfl⟩
  | succ n ih =>
    have hnext : login o k (n + 1) = (login o k n).step o.login o.stack := Accept.run_succ ..
    rw [hnext]
    exact ih.trans (Accept.step_stays ih.tied.wf (ih.tied.outfd.trans (hfd.trans ih.fd.symm)))

theorem login_writesTo (o : Outside) (k : Kernel) (n : ℕ) :
    Kernel.WritesTo {o.fds.frontend} { k with sent := [] } (login o k n).kernel := by
  have hout : (login o k 0).mbuf.outfd = o.fds.frontend := if_pos (ne_same_fd o.fds.frontend_nonneg)
  exact hout ▸ (login_stays o k n).tied.writes

/-- A client that is let in has sent the digest. -/
theorem admitted_of_returned {n : ℕ} (h : (login o k n).stage = .returned 0) :
    Admitted o k (login o k n).conn.params := by
  have hsound := Accept.run_sound o.login o.stack o.frontendSalt o.fds.frontend { k with sent := [] } n
  have hconsistent : Consistent o.login (login o k n).conn := hsound.consistent (.inr h)
  obtain ⟨i, -, hstage, -, hin⟩ := Accept.run_returned h
  have hconn : (login o k n).conn = (login o k i).conn := hin.conn
  obtain ⟨hash, hhash, htoken⟩ := checkAuth_eq_zero hin.auth
  rw [← hin.conn, hsound.salt] at htoken
  have hfind : (login o k n).conn.username.bind (pgrAuthFind o.login) = some hash := by
    rw [← hconsistent.pwhash, hconn]
    exact hhash
  obtain ⟨user, huser, hfind⟩ := Option.bind_eq_some_iff.mp hfind
  exact ⟨user, hash, hconsistent.username.symm.trans huser, hfind, i, hstage, congrArg _ hconn.symm, hin.type, htoken⟩

/-- How `pgr_conn_connect` begins: the loop begins when the StartupMessage has been sent, or else it fails. -/
theorem connect_cases (c : Connection) (fd : Fd) (up : Bool) (k : Kernel) (loop : Connect → Serve)
    (ready : Kernel → Serve) :
    (∃ l, connect c fd up k loop ready = loop l ∧ l.mbuf.Wf ∧ l.mbuf.outfd = fd ∧ k.WritesTo {fd} l.kernel ∧
      ((startupOctets c.params).length ≤ 512 → l.kernel.delivered fd = k.delivered fd ++ startupOctets c.params)) ∨
    ∃ k', (connect c fd up k loop ready = closed k' ∨ connect c fd up k loop ready = fault k') ∧
      k.WritesTo {fd} k' ∧ ((startupOctets c.params).length ≤ 512 →
        ∃ w, w <+: startupOctets c.params ∧ k'.delivered fd = k.delivered fd ++ w) := by
  have hnothing : ∃ w, w <+: startupOctets c.params ∧ k.delivered fd = k.delivered fd ++ w :=
    ⟨[], List.nil_prefix, (List.append_nil _).symm⟩
  unfold connect
  split
  · exact .inr ⟨k, .inr rfl, .refl k, fun _ => hnothing⟩
  · cases up with
    | false => exact .inr ⟨k, .inl rfl, .refl k, fun _ => hnothing⟩
    | true =>
      have hsends := Connect.start_sends c fd k
      rw [if_pos rfl]
      cases hstart : Connect.start c fd k with
      | ok l =>
        rw [hstart] at hsends
        exact .inl ⟨l, rfl, hsends⟩
      | error r =>
        obtain ⟨rc, l⟩ := r
        rw [hstart] at hsends
        obtain ⟨⟨n, hn, rfl⟩, hsends⟩ := hsends
        exact .inr ⟨l.kernel, .inl (if_pos hn), hsends⟩

/-- How a round of its loop goes on. -/
theorem round_cases (o : Outside) {l : Connect} (h : l.mbuf.Wf) (loop : Connect → Serve) (ready : Kernel → Serve) :
    ∃ l' : Connect, l.Stays l' ∧ let next := connected loop ready (l.round o.stack o.behind)
      next = loop l' ∨ next = ready l'.kernel ∨ next = closed l'.kernel ∨ next = fault l'.kernel := by
  have hstays := Connect.round_stays h o.stack o.behind
  refine ⟨_, hstays, ?_⟩
  cases hround : l.round o.stack o.behind with
  | ok l' => exact .inl rfl
  | error r =>
    obtain ⟨rc, l'⟩ := r
    cases rc with
    | none => exact .inr (.inr (.inr rfl))
    | some rc =>
      simp only [connected]
      split_ifs
      · exact .inr (.inr (.inl rfl))
      · exact .inr (.inl rfl)

/-! ### What has been written -/

/-- What has been written once the client has been let in. -/
structure Sent (o : Outside) (k : Kernel) (params : List Param) (reader writer : List Octet → Prop) (k' : Kernel) :
    Prop where
  /-- The client has sent the digest. -/
  admitted : Admitted o k params
  /-- Only the client and the backends have been written to. -/
  writes : Kernel.WritesTo o.fds.all { k with sent := [] } k'
  /-- What the reader has been sent. -/
  reader : reader (k'.delivered o.fds.reader)
  /-- What the writer has been sent. -/
  writer : writer (k'.delivered o.fds.writer)

/-- A backend that has been sent the StartupMessage, if there is room for it in the buffer. -/
def Opened (params : List Param) (d : List Octet) : Prop :=
  (startupOctets params).length ≤ 512 → startupOctets params <+: d

/-- What holds after any number of steps. -/
def Holds (o : Outside) (k : Kernel) : Serve → Prop
  | accepting l => ∃ n, l = login o k n
  | toReader frontend writer l => writer.params = frontend.params ∧ l.mbuf.Wf ∧ l.mbuf.outfd = o.fds.reader ∧
      Sent o k frontend.params (Opened frontend.params) (· = []) l.kernel
  | toWriter frontend l => l.mbuf.Wf ∧ l.mbuf.outfd = o.fds.writer ∧
      Sent o k frontend.params (Opened frontend.params) (Opened frontend.params) l.kernel
  | session frontend s => (∃ opened, s.Wired opened) ∧ s.Aimed ∧ s.fds = o.fds ∧
      Sent o k frontend.params (Opened frontend.params) (Opened frontend.params) s.kernel
  | closed k' | fault k' => Kernel.WritesTo {o.fds.frontend} { k with sent := [] } k' ∨
      ∃ params, Sent o k params (Opening params) (Opening params) k'

variable {k' k'' : Kernel} {params : List Param} {reader writer : List Octet → Prop}

theorem opening_nil : Opening params [] := fun _ => .inl List.nil_prefix

theorem Opened.opening {d : List Octet} (h : Opened params d) : Opening params d := fun hfits => .inr (h hfits)

/-- More is delivered to a backend that has been sent the StartupMessage. -/
theorem Opened.later {fd : Fd} (h : Opened params (k'.delivered fd)) {S : Set Fd} (hw : k'.WritesTo S k'') :
    Opened params (k''.delivered fd) := by
  obtain ⟨w, hsent, -⟩ := hw
  intro hfits
  refine (h hfits).trans ?_
  rw [Kernel.delivered, Kernel.delivered, hsent, List.filter_append, List.map_append]
  exact List.prefix_append _ _

/-- Something has been written to one of the descriptors. -/
theorem Sent.later (h : Sent o k params reader writer k') {S : Set Fd} (hw : k'.WritesTo S k'') (hS : S ⊆ o.fds.all)
    {reader' writer' : List Octet → Prop} (hreader : reader' (k''.delivered o.fds.reader))
    (hwriter : writer' (k''.delivered o.fds.writer)) : Sent o k params reader' writer' k'' :=
  ⟨h.admitted, h.writes.trans (hw.mono hS), hreader, hwriter⟩

theorem reader_subset (fds : Descriptors) : {fds.reader} ⊆ fds.all := fun _ h => .inr (.inl h)

theorem writer_subset (fds : Descriptors) : {fds.writer} ⊆ fds.all := fun _ h => .inr (.inr h)

/-- The session begins when both backends have been sent the StartupMessage. -/
theorem begin_holds {frontend : Connection}
    (h : Sent o k frontend.params (Opened frontend.params) (Opened frontend.params) k') :
    Holds o k (begin o frontend k') :=
  ⟨⟨false, Session.start_wired o.fds k'⟩, .inl rfl, rfl, h⟩

/-- The login to the writer. -/
theorem connectWriter_holds {frontend writer : Connection} (hparams : writer.params = frontend.params)
    (h : Sent o k frontend.params (Opened frontend.params) (· = []) k') :
    Holds o k (connectWriter o frontend writer k') := by
  obtain ⟨l, hnext, hwf, hout, hwrites, hsends⟩ | ⟨k'', hnext, hwrites, hsends⟩ :=
    connect_cases writer o.fds.writer o.writerUp k' (toWriter frontend) (begin o frontend)
  · rw [connectWriter, hnext]
    refine ⟨hwf, hout, h.later hwrites (writer_subset _) (h.reader.later hwrites) fun hfits => ?_⟩
    rw [hsends (hparams ▸ hfits), h.writer, hparams]
    exact List.prefix_rfl
  · have hsent : Sent o k frontend.params (Opening frontend.params) (Opening frontend.params) k'' := by
      refine h.later hwrites (writer_subset _) (h.reader.later hwrites).opening fun hfits => .inl ?_
      obtain ⟨w, hw, hdelivered⟩ := hsends (hparams ▸ hfits)
      rw [hdelivered, h.writer, ← hparams]
      exact hw
    rw [connectWriter]
    rcases hnext with hnext | hnext
    · rw [hnext]
      exact .inr ⟨_, hsent⟩
    · rw [hnext]
      exact .inr ⟨_, hsent⟩

/-- The login to the reader. -/
theorem connectReader_holds {frontend reader writer : Connection} (hreader : reader.params = frontend.params)
    (hwriter : writer.params = frontend.params) (h : Sent o k frontend.params (· = []) (· = []) k') :
    Holds o k (connectReader o frontend reader writer k') := by
  have hother : ∀ {k''}, k'.WritesTo {o.fds.reader} k'' → k''.delivered o.fds.writer = [] := fun hwrites =>
    (hwrites.delivered (Ne.symm o.fds.reader_ne_writer)).trans h.writer
  obtain ⟨l, hnext, hwf, hout, hwrites, hsends⟩ | ⟨k'', hnext, hwrites, hsends⟩ :=
    connect_cases reader o.fds.reader o.readerUp k' (toReader frontend writer) (connectWriter o frontend writer)
  · rw [connectReader, hnext]
    refine ⟨hwriter, hwf, hout, h.later hwrites (reader_subset _) (fun hfits => ?_) (hother hwrites)⟩
    rw [hsends (hreader ▸ hfits), h.reader, hreader]
    exact List.prefix_rfl
  · have hsent : Sent o k frontend.params (Opening frontend.params) (Opening frontend.params) k'' := by
      refine h.later hwrites (reader_subset _) (fun hfits => .inl ?_) ?_
      · obtain ⟨w, hw, hdelivered⟩ := hsends (hreader ▸ hfits)
        rw [hdelivered, h.reader, ← hreader]
        exact hw
      · rw [hother hwrites]
        exact opening_nil
    rw [connectReader]
    rcases hnext with hnext | hnext
    · rw [hnext]
      exact .inr ⟨_, hsent⟩
    · rw [hnext]
      exact .inr ⟨_, hsent⟩

/-! ### The run -/

/-- Choosing a backend leaves the parameters alone. -/
theorem weighBackends_params (c : Context) (i cumulative : ℤ) (writer : Connection) (bs : List Backend) :
    (weighBackends c i cumulative writer bs).2.2.params = writer.params := by
  induction bs generalizing i cumulative writer with
  | nil => rfl
  | cons b bs ih =>
    unfold weighBackends
    simp only
    split_ifs
    · exact ih _ _ _
    · exact ih _ _ _
    · exact ih _ _ _

theorem pickReader_params (c : Context) (r i : ℤ) (reader : Connection) (bs : List Backend) (weights : List ℤ) :
    (pickReader c r i reader bs weights).2.params = reader.params := by
  fun_induction pickReader c r i reader bs weights with
  | case1 => rfl
  | case2 _ _ _ _ _ _ ih => exact ih
  | case3 => rfl

theorem determineBackends_params (c : Context) (reader writer : Connection) (r : ℤ) :
    (determineBackends c reader writer r).2.1.params = reader.params ∧
      (determineBackends c reader writer r).2.2.params = writer.params := by
  have hwriter := weighBackends_params c 0 0 writer c.backends
  unfold determineBackends
  simp only
  split_ifs
  · exact ⟨rfl, hwriter⟩
  · exact ⟨pickReader_params .., hwriter⟩

/-- The client has been let in. -/
theorem accepted_holds {n : ℕ} (h : (login o k n).stage = .returned 0) :
    Holds o k (accepted o (login o k n).conn (login o k n).kernel) := by
  have hwrites := login_writesTo o k n
  have hfrontend : {o.fds.frontend} ⊆ o.fds.all := fun _ h => .inl h
  have hother : ∀ fd, fd ≠ o.fds.frontend → (login o k n).kernel.delivered fd = [] :=
    fun fd hfd => hwrites.delivered (S := {o.fds.frontend}) hfd
  have hsent : Sent o k (login o k n).conn.params (· = []) (· = []) (login o k n).kernel :=
    ⟨admitted_of_returned h, hwrites.mono hfrontend, hother _ o.fds.frontend_ne_reader.symm,
      hother _ o.fds.frontend_ne_writer.symm⟩
  obtain ⟨hreader, hwriter⟩ :=
    determineBackends_params o.choice (pgrConnInit o.readerSalt) (pgrConnInit o.writerSalt) o.r
  unfold accepted
  simp only
  split_ifs with hrc hcopy hcopy'
  · exact .inl hwrites
  · exact absurd rfl hcopy
  · exact absurd rfl hcopy'
  · exact connectReader_holds (pgrConnCopy_params _ _ hreader) (pgrConnCopy_params _ _ hwriter) hsent

/-- **A step of `handle_client`.** -/
theorem Holds.step {s : Serve} (h : Holds o k s) : Holds o k (s.step o) := by
  cases s with
  | accepting l =>
    obtain ⟨n, rfl⟩ := h
    rw [Serve.step]
    cases hstage : (login o k n).stage with
    | receiving => exact ⟨n + 1, (Accept.run_succ ..).symm⟩
    | fault => exact .inl (login_writesTo o k n)
    | returned rc =>
      simp only
      split_ifs with hrc
      · exact .inl (login_writesTo o k n)
      · exact accepted_holds (hstage.trans (congrArg _ (not_not.mp hrc)))
  | toReader frontend writer l =>
    obtain ⟨hparams, hwf, hout, hsent⟩ := h
    obtain ⟨l', hstays, hnext⟩ := round_cases o hwf (toReader frontend writer) (connectWriter o frontend writer)
    have hwrites : l.kernel.WritesTo {o.fds.reader} l'.kernel := hout ▸ hstays.writes
    have hsent' : Sent o k frontend.params (Opened frontend.params) (· = []) l'.kernel :=
      hsent.later hwrites (reader_subset _) (hsent.reader.later hwrites)
        ((hwrites.delivered (Ne.symm o.fds.reader_ne_writer)).trans hsent.writer)
    have hclosed : ∃ params, Sent o k params (Opening params) (Opening params) l'.kernel :=
      ⟨_, hsent'.admitted, hsent'.writes, hsent'.reader.opening, by rw [hsent'.writer]; exact opening_nil⟩
    rcases hnext with hnext | hnext | hnext | hnext
    · rw [Serve.step, hnext]
      exact ⟨hparams, hstays.wf, hstays.outfd.trans hout, hsent'⟩
    · rw [Serve.step, hnext]
      exact connectWriter_holds hparams hsent'
    · rw [Serve.step, hnext]
      exact .inr hclosed
    · rw [Serve.step, hnext]
      exact .inr hclosed
  | toWriter frontend l =>
    obtain ⟨hwf, hout, hsent⟩ := h
    obtain ⟨l', hstays, hnext⟩ := round_cases o hwf (toWriter frontend) (begin o frontend)
    have hwrites : l.kernel.WritesTo {o.fds.writer} l'.kernel := hout ▸ hstays.writes
    have hsent' : Sent o k frontend.params (Opened frontend.params) (Opened frontend.params) l'.kernel :=
      hsent.later hwrites (writer_subset _) (hsent.reader.later hwrites) (hsent.writer.later hwrites)
    have hclosed : ∃ params, Sent o k params (Opening params) (Opening params) l'.kernel :=
      ⟨_, hsent'.admitted, hsent'.writes, hsent'.reader.opening, hsent'.writer.opening⟩
    rcases hnext with hnext | hnext | hnext | hnext
    · rw [Serve.step, hnext]
      exact ⟨hstays.wf, hstays.outfd.trans hout, hsent'⟩
    · rw [Serve.step, hnext]
      exact begin_holds hsent'
    · rw [Serve.step, hnext]
      exact .inr hclosed
    · rw [Serve.step, hnext]
      exact .inr hclosed
  | session frontend s =>
    obtain ⟨⟨opened, hwired⟩, haimed, hfds, hsent⟩ := h
    have hround := s.step_round
    have hwrites := hround.writesTo hwired haimed
    exact ⟨⟨_, hround.wired hwired⟩, hround.aimed hwired haimed, (hround.sound hwired.sound).2.trans hfds,
      hsent.later hwrites (hfds ▸ subset_rfl) (hsent.reader.later hwrites) (hsent.writer.later hwrites)⟩
  | closed k' | fault k' => exact h

theorem run_holds (o : Outside) (k : Kernel) (n : ℕ) : Holds o k (run o k n) := by
  induction n with
  | zero => exact ⟨0, rfl⟩
  | succ n ih =>
    rw [run, Function.iterate_succ_apply']
    exact ih.step

/-- **Nothing is written to a backend before the client has been authenticated.** If a descriptor other than that of
the client has been given anything, it is that of a backend, the client has sent the digest of the password hash of a
user, and what the backend has been given are the first octets of the StartupMessage for that user, or begins with
it, if there is room for the StartupMessage in the buffer. -/
theorem authenticated_first (o : Outside) (k : Kernel) (n : ℕ) (fd : Fd) (hfd : fd ≠ o.fds.frontend)
    (h : (run o k n).kernel.delivered fd ≠ []) :
    (fd = o.fds.reader ∨ fd = o.fds.writer) ∧
      ∃ params, Admitted o k params ∧ Opening params ((run o k n).kernel.delivered fd) := by
  have hsome : ∀ {params R W} {k' : Kernel}, Sent o k params R W k' → k'.delivered fd ≠ [] →
      (∀ d, R d → Opening params d) → (∀ d, W d → Opening params d) →
      (fd = o.fds.reader ∨ fd = o.fds.writer) ∧ ∃ params, Admitted o k params ∧ Opening params (k'.delivered fd) := by
    intro params R W k' hsent hne hR hW
    have hbackend : fd = o.fds.reader ∨ fd = o.fds.writer := by
      by_contra hother
      exact hne (hsent.writes.delivered fun h => h.elim hfd hother)
    refine ⟨hbackend, params, hsent.admitted, ?_⟩
    rcases hbackend with rfl | rfl
    · exact hR _ hsent.reader
    · exact hW _ hsent.writer
  have hopened : ∀ {params} d, Opened params d → Opening params d := fun _ h => h.opening
  have hnone : ∀ {params} d, d = [] → Opening params d := fun _ h => h ▸ opening_nil
  have hclient : ∀ {k'}, Kernel.WritesTo {o.fds.frontend} { k with sent := [] } k' → k'.delivered fd = [] :=
    fun hwrites => hwrites.delivered (S := {o.fds.frontend}) hfd
  have hholds := run_holds o k n
  cases hrun : run o k n with
  | accepting l =>
    rw [hrun] at hholds h
    obtain ⟨i, rfl⟩ := hholds
    exact absurd (hclient (login_writesTo o k i)) h
  | toReader frontend writer l =>
    rw [hrun] at hholds h
    exact hsome hholds.2.2.2 h hopened hnone
  | toWriter frontend l =>
    rw [hrun] at hholds h
    exact hsome hholds.2.2 h hopened hopened
  | session frontend s =>
    rw [hrun] at hholds h
    exact hsome hholds.2.2.2 h hopened hopened
  | closed k' | fault k' =>
    rw [hrun] at hholds h
    rcases hholds with hwrites | ⟨params, hsent⟩
    · exact absurd (hclient hwrites) h
    · exact hsome hsent h (fun _ => id) (fun _ => id)

/-- `bob` is served by a master and a slave. -/
def bobOutside : Outside where
  login := Accept.someContext
  choice := masterAndSlave
  r := 1
  frontendSalt := Accept.someSalt
  readerSalt := Accept.someSalt
  writerSalt := Accept.someSalt
  stack := fun _ => 0
  behind := fun _ => 0
  fds := someDescriptors
  readerUp := true
  writerUp := true

/-- The reader has been given the StartupMessage of `bob`, who has been let in. -/
theorem authenticated_first_bob : ∃ params, Admitted bobOutside Accept.bobKernel params ∧
    Opening params ((run bobOutside Accept.bobKernel 3).kernel.delivered 4) :=
  (authenticated_first bobOutside Accept.bobKernel 3 4 (by decide) (by decide +kernel)).2

end

end Serve

end PgRouter.Worker
