import PgRouter.Login.Authentication
import PgRouter.Login.Connect
import PgRouter.Wire.Sending

/-!
# Where a login writes

The buffer of a login has the descriptor of the connection on both sides, and keeps it.

## What is proved

The login of a client writes to the client, and the login to a backend to the backend, whatever is received and
whatever fails (`Accept.step_stays`, `Connect.round_stays`). What the login to a backend sends first is the
StartupMessage, and the loop begins only when all of it has been sent (`Connect.start_sends`).
-/

namespace PgRouter.Login

open Foundation Wire

/-! ### The login of a client -/

section

variable {ctx : Context} {stack : ℕ → Octet}

theorem extractLoop_fd {m : Mbuf} {c c' : Connection} {x : ℕ} {rc : ℤ}
    (h : extractLoop ctx m c x = some (rc, c')) : c'.fd = c.fd := by
  have hset : ∀ (c : Connection) (name value : CString), (setParam ctx c name value).fd = c.fd := by
    intro c name value
    unfold setParam
    split_ifs <;> rfl
  fun_induction extractLoop ctx m c x with
  | case1 => cases h
  | case2 => cases h; rfl
  | case3 => cases h
  | case4 => cases h
  | case5 => cases h; rfl
  | case6 => cases h
  | case7 c x _ _ name _ x' _ hne value hvalue ih => exact (ih h).trans (hset _ _ _)

theorem extractParams_fd {m : Mbuf} {c c' : Connection} {rc : ℤ} (h : extractParams ctx c m = some (rc, c')) :
    c'.fd = c.fd := by
  unfold extractParams at h
  split at h
  · cases h
    rfl
  · exact extractLoop_fd h

/-- The buffer of a login is tied to the descriptor of the connection. -/
structure Accept.Stays (l l' : Accept) : Prop where
  /-- It stays tied to the descriptors that it has. -/
  tied : Tied l.mbuf l.kernel l'.mbuf l'.kernel
  /-- The descriptor stays. -/
  fd : l'.conn.fd = l.conn.fd

theorem Accept.Stays.trans {l l' l'' : Accept} (h : Accept.Stays l l') (h' : Accept.Stays l' l'') :
    Accept.Stays l l'' :=
  ⟨h.tied.trans h'.tied, h'.fd.trans h.fd⟩

theorem Accept.Stays.ret {l l' : Accept} (h : Accept.Stays l l') (rc : ℤ) : Accept.Stays l (l'.ret rc) := ⟨h.tied, h.fd⟩

theorem discard_stays {l : Accept} (h : l.mbuf.Wf) : Accept.Stays l l.discard := ⟨pgrMbufDiscard_tied h _, rfl⟩

theorem relay_stays {l : Accept} (h : l.mbuf.Wf) : Accept.Stays l l.relay.2 := ⟨pgrMbufRelay_tied h _, rfl⟩

/-- Something is appended. -/
theorem append_stays {l : Accept} {m : Mbuf} (h : Tied l.mbuf l.kernel m l.kernel) :
    Accept.Stays l { l with mbuf := m } :=
  ⟨h, rfl⟩

theorem reply_stays {l : Accept} (h : l.mbuf.Wf) (d : List Octet) :
    Accept.Stays l (l.reply (pgrMbufCat l.mbuf d)).2 := by
  have hcat := append_stays (pgrMbufCat_tied h l.kernel d)
  unfold Accept.reply
  simp only
  split_ifs
  · exact hcat
  · exact hcat.trans (relay_stays hcat.tied.wf)

theorem refuse_stays {l : Accept} (h : l.mbuf.Wf) : Accept.Stays l l.refuse := by
  have herror : Accept.Stays l
      { l with mbuf := errorResponse l.mbuf ERROR INVALID_PASSWORD (failureText l.conn.username) } :=
    append_stays (foldl_pgrMbufCat_tied h l.kernel _)
  exact herror.trans (relay_stays herror.tied.wf)

theorem noSsl_stays {l : Accept} (h : l.mbuf.Wf) (hfd : l.mbuf.outfd = l.conn.fd) : Accept.Stays l l.noSsl := by
  have hwrote := (Kernel.write_wrote (Prod.mk.eta.symm : l.kernel.write l.conn.fd NO_SSL = (_, _))).2
  unfold Accept.noSsl
  exact ⟨⟨h, rfl, rfl, hwrote.writesTo hfd.symm⟩, rfl⟩

theorem Accept.Round.stays {l l' : Accept} (h : Accept.Round ctx stack l l') (hwf : l.mbuf.Wf)
    (hfd : l.mbuf.outfd = l.conn.fd) : Accept.Stays l l' := by
  have hdiscard := discard_stays hwf
  have hparsed : ∀ {rc : ℤ} {c : Connection},
      extractParams ctx l.conn l.mbuf = some (rc, c) → Accept.Stays l (l.parsed c) :=
    fun hparams => ⟨hdiscard.tied, extractParams_fd hparams⟩
  have hchallenge : ∀ {rc : ℤ} {c : Connection}, extractParams ctx l.conn l.mbuf = some (rc, c) →
      Accept.Stays l (l.parsed c).challenge.2 := fun hparams =>
    (hparsed hparams).trans (reply_stays (hparsed hparams).tied.wf _)
  have hwelcome := hdiscard.trans (reply_stays hdiscard.tied.wf _ : Accept.Stays _ l.discard.welcome.2)
  have hready := hwelcome.trans (reply_stays hwelcome.tied.wf _ : Accept.Stays _ l.discard.welcome.2.ready.2)
  have hssl := hdiscard.trans (noSsl_stays hdiscard.tied.wf (hdiscard.tied.outfd.trans hfd))
  have hself : Accept.Stays l l := ⟨.refl hwf _, rfl⟩
  cases h with
  | ssl => exact hssl
  | sslFailed => exact hssl.ret _
  | cancel => exact hdiscard
  | startupFault | passwordFault => exact ⟨hself.tied, hself.fd⟩
  | unknown => exact hself.ret _
  | startupRefused type params => exact ⟨hself.tied, extractParams_fd params⟩
  | startupFailed type params => exact (hchallenge params).ret _
  | startup type params => exact hchallenge params
  | refused => exact (hdiscard.trans (refuse_stays hdiscard.tied.wf)).ret _
  | welcomeFailed => exact hwelcome.ret _
  | readyFailed | accepted => exact hready.ret _

theorem Accept.step_stays {l : Accept} (hwf : l.mbuf.Wf) (hfd : l.mbuf.outfd = l.conn.fd) :
    Accept.Stays l (l.step ctx stack) := by
  have hrecv : Accept.Stays l l.recv.2 := ⟨pgrMbufRecv_tied hwf _, rfl⟩
  rcases Accept.step_cases ctx stack l with ⟨-, hstep⟩ | ⟨-, -, hstep⟩ | ⟨-, -, hround⟩
  · rw [hstep]
    exact ⟨.refl hwf _, rfl⟩
  · rw [hstep]
    exact hrecv.ret _
  · exact hrecv.trans (hround.stays hrecv.tied.wf (hrecv.tied.outfd.trans hfd))

end

/-! ### The login to a backend -/

namespace Connect

/-- The buffer is tied to the descriptors that it has. -/
def Stays (l l' : Connect) : Prop := Tied l.mbuf l.kernel l'.mbuf l'.kernel

/-- The state after a part of `pgr_conn_connect`, however it goes on. -/
def after : Except Exit Connect → Connect
  | .ok l => l
  | .error (_, l) => l

variable {l : Connect}

theorem discard_stays (h : l.mbuf.Wf) : Stays l l.discard := pgrMbufDiscard_tied h _

theorem reply_stays {r : ℤ × Mbuf} (hr : Tied l.mbuf l.kernel r.2 l.kernel) : Stays l (after (l.reply r)) := by
  unfold reply
  simp only
  split_ifs
  · exact hr
  · exact hr.trans (pgrMbufRelay_tied hr.wf _)
  · exact hr.trans (pgrMbufRelay_tied hr.wf _)

theorem md5Password_stays (h : l.mbuf.Wf) (stack behind : ℕ → Octet) :
    Stays l (after (l.md5Password stack behind)) := by
  unfold md5Password
  split
  · exact .refl h _
  · rename_i x _
    have hdiscard : Stays l (l.setSalt x).discard := (pgrMbufDiscard_tied h _ : Tied l.mbuf l.kernel _ _)
    simp only
    split
    · exact hdiscard
    · rename_i r hr
      obtain ⟨pwhash, -, rfl⟩ := Option.map_eq_some_iff.mp hr
      exact hdiscard.trans (reply_stays (pgrMbufCat_tied hdiscard.wf _ _))

/-- A round of the loop writes to the backend only. -/
theorem round_stays (h : l.mbuf.Wf) (stack behind : ℕ → Octet) : Stays l (after (l.round stack behind)) := by
  have hrecv : Stays l l.recv.2 := pgrMbufRecv_tied h _
  have hdiscard := hrecv.trans (discard_stays hrecv.wf)
  have hmd5 := hrecv.trans (md5Password_stays hrecv.wf stack behind)
  unfold round
  simp only
  split_ifs
  · exact hrecv
  · unfold dispatch authentication
    simp only
    split_ifs
    · exact hrecv
    · exact hrecv
    · exact hdiscard
    · exact hmd5
    · exact hrecv
    · exact hdiscard
    · exact hdiscard
    · exact hdiscard
    · exact hrecv

/-! ### The StartupMessage -/

/-- `size` of the StartupMessage is its length. -/
theorem frameSize_startupOctets {ps : List Param} (hfits : (startupOctets ps).length ≤ 512) (rest : List Octet) :
    frameSize (startupOctets ps ++ rest) = (startupOctets ps).length := by
  let msg : Message := ⟨none, (Option.some_ne_none _).symm, [0, 3, 0, 0] ++ paramsOctets ps⟩
  have hlen := length_startupOctets ps
  have hfield : msg.lengthField = 8 + (paramsOctets ps).length := by
    rw [Message.lengthField, List.length_append]
    exact Nat.add_right_comm _ _ _
  have hoctets : msg.octets = startupOctets ps := by
    rw [Message.octets, hfield]
    rfl
  rw [← hoctets, (frameSize_untyped rfl ?_ (by omega)).mpr (by omega), hfield, hoctets, hlen]
  rw [hoctets, List.length_append]
  omega

/-- Relaying what begins with the StartupMessage sends its first octets, and the whole if it returns `0`. -/
theorem pgrMbufRelay_startup {m : Mbuf} (h : m.Wf) {fd : Fd} (hout : m.outfd = fd) (k : Kernel) {ps : List Param}
    (hfits : (startupOctets ps).length ≤ 512) (hwin : m.window = startupOctets ps) :
    ∃ w, w <+: startupOctets ps ∧ (pgrMbufRelay m k).2.2.delivered fd = k.delivered fd ++ w ∧
      ((pgrMbufRelay m k).1 = 0 → w = startupOctets ps) := by
  have hlen := length_startupOctets ps
  have hav : 5 ≤ m.available := by
    rw [← length_window, hwin]
    omega
  have hsize : size m = (startupOctets ps).length := by
    rw [← frameSize_window h hav, hwin]
    simpa using frameSize_startupOctets hfits []
  obtain ⟨u, w, he, -, hwu, hle, -, hzero, -⟩ := pgrMbufRelay_spec h hav (k := k) rfl
  -- what is taken from the stream is no more than the message that it begins with
  have hu : u <+: startupOctets ps := by
    refine List.prefix_of_prefix_length_le ⟨_, he.pending⟩ ?_ (hsize ▸ hle)
    rw [pending, hwin]
    exact List.prefix_append _ _
  refine ⟨w, hwu.trans hu, delivered_append (hout ▸ he.sent), fun h0 => ?_⟩
  obtain ⟨hul, rfl⟩ := hzero.mp h0
  exact hu.eq_of_length (hul.trans hsize)

/-- What precedes the loop sends the StartupMessage, or its first octets and returns, but not `0`. -/
theorem start_sends (c : Connection) (fd : Fd) (k : Kernel) :
    match start c fd k with
    | .ok l => l.mbuf.Wf ∧ l.mbuf.outfd = fd ∧ k.WritesTo {fd} l.kernel ∧
        ((startupOctets c.params).length ≤ 512 → l.kernel.delivered fd = k.delivered fd ++ startupOctets c.params)
    | .error (rc, l) => (∃ n ≠ 0, rc = some n) ∧ k.WritesTo {fd} l.kernel ∧
        ((startupOctets c.params).length ≤ 512 →
          ∃ w, w <+: startupOctets c.params ∧ l.kernel.delivered fd = k.delivered fd ++ w) := by
  have hnothing : ∃ w, w <+: startupOctets c.params ∧ k.delivered fd = k.delivered fd ++ w :=
    ⟨[], List.nil_prefix, (List.append_nil _).symm⟩
  have hwf : (pgrMbufSetfd (pgrMbufNew 512) fd fd).Wf := ⟨le_rfl, Nat.zero_le _⟩
  unfold start
  simp only
  split_ifs with hneg
  · exact ⟨⟨fd, hneg.ne, rfl⟩, .refl k, fun _ => hnothing⟩
  · have hfd : (pgrMbufSetfd (pgrMbufNew 512) fd fd).outfd = fd :=
      if_pos fun h : fd = MBUF_SAME_FD => hneg (h ▸ by decide)
    have happend := foldl_pgrMbufCat_tied hwf k (startupPieces { c with fd := fd })
    have hout : (startupMessage (pgrMbufSetfd (pgrMbufNew 512) fd fd) { c with fd := fd }).2.outfd = fd :=
      happend.outfd.trans hfd
    have hrelay := pgrMbufRelay_tied happend.wf k
    have hwrites : k.WritesTo {fd} _ := happend.outfd.trans hfd ▸ hrelay.writes
    have hwindow : (startupOctets c.params).length ≤ 512 →
        (startupMessage (pgrMbufSetfd (pgrMbufNew 512) fd fd) { c with fd := fd }).2.window =
          startupOctets c.params := by
      intro hfits
      rw [startupMessage_put hfits, window_put hwf]
      rfl
    unfold reply
    simp only
    split_ifs with hrc hrelayed
    · exact absurd rfl hrc
    · refine ⟨⟨_, hrelayed, rfl⟩, hwrites, fun hfits => ?_⟩
      obtain ⟨w, hw, hdelivered, -⟩ := pgrMbufRelay_startup happend.wf hout k hfits (hwindow hfits)
      exact ⟨w, hw, hdelivered⟩
    · refine ⟨hrelay.wf, hrelay.outfd.trans hout, hwrites, fun hfits => ?_⟩
      obtain ⟨w, -, hdelivered, hall⟩ := pgrMbufRelay_startup happend.wf hout k hfits (hwindow hfits)
      rw [← hall (not_not.mp hrelayed)]
      exact hdelivered

end Connect

end PgRouter.Login
