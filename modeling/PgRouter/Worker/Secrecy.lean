import PgRouter.Worker.Serve

/-!
# What a client can learn of the password hashes

A login looks the user up in the authentication database, and compares what the client sends with a digest of what it
has found. What the client gets to see depends on that.

## What is proved

Take two databases, whatever users and hashes there are in them, and the same client. As long as `check_auth` refuses
the passwords of the client in both cases, it gets the same octets, and the same is read from it: it cannot tell
which of the two the router has, nor whether there is such a user (`refused_alike`).
-/

namespace PgRouter

/-- The same connection with another hash. -/
def Connection.withHash (c : Connection) (pwhash : Option CString) : Connection := { c with pwhash := pwhash }

end PgRouter

namespace PgRouter.Login

open Foundation Wire

section

variable (ctx ctx' : Context) (stack : ℕ → Octet)

/-- The parameters are extracted alike, whatever the hashes are. -/
theorem setParam_withHash (c : Connection) (pwhash : Option CString) (name value : CString) :
    ∃ p, setParam ctx' (c.withHash pwhash) name value = (setParam ctx c name value).withHash p := by
  unfold setParam
  simp only
  split_ifs
  · exact ⟨pgrAuthFind ctx' value, rfl⟩
  · exact ⟨pwhash, rfl⟩
  · exact ⟨pwhash, rfl⟩

/-- What `extract_params` returns, with another hash. -/
def SameButHash (r r' : Option (ℤ × Connection)) : Prop :=
  r = none ∧ r' = none ∨ ∃ rc c p, r = some (rc, c) ∧ r' = some (rc, c.withHash p)

theorem extractLoop_withHash (m : Mbuf) (c : Connection) (pwhash : Option CString) (x : ℕ) :
    SameButHash (extractLoop ctx m c x) (extractLoop ctx' m (c.withHash pwhash) x) := by
  fun_induction extractLoop ctx m c x generalizing pwhash with
  | case1 c x hend =>
    rw [extractLoop, if_pos hend]
    exact .inl ⟨rfl, rfl⟩
  | case2 c x hend h0 =>
    rw [extractLoop, if_neg hend, if_pos h0]
    exact .inr ⟨0, c, pwhash, rfl, rfl⟩
  | case3 c x hend h0 hname =>
    rw [extractLoop, if_neg hend, if_neg h0, hname]
    exact .inl ⟨rfl, rfl⟩
  | case4 c x hend h0 name hname x' hend' =>
    rw [extractLoop, if_neg hend, if_neg h0, hname]
    exact .inl ⟨rfl, if_pos hend'⟩
  | case5 c x hend h0 name hname x' hend' h0' =>
    rw [extractLoop, if_neg hend, if_neg h0, hname]
    exact .inr ⟨-1, _, pwhash, rfl, (if_neg hend').trans (if_pos h0')⟩
  | case6 c x hend h0 name hname x' hend' h0' hvalue =>
    rw [extractLoop, if_neg hend, if_neg h0, hname]
    refine .inl ⟨rfl, (if_neg hend').trans ((if_neg h0').trans ?_)⟩
    rw [hvalue]
  | case7 c x hend h0 name hname x' hend' h0' value hvalue ih =>
    obtain ⟨p, hp⟩ := setParam_withHash ctx ctx' c pwhash name value
    have hnext : extractLoop ctx' m (c.withHash pwhash) x =
        extractLoop ctx' m ((setParam ctx c name value).withHash p) (x' + value.length + 1) := by
      rw [extractLoop, if_neg hend, if_neg h0, hname]
      refine (if_neg hend').trans ((if_neg h0').trans ?_)
      rw [hvalue]
      exact congrArg (fun c => extractLoop ctx' m c (x' + value.length + 1)) hp
    rw [hnext]
    exact ih p

theorem extractParams_withHash (m : Mbuf) (c : Connection) (pwhash : Option CString) :
    SameButHash (extractParams ctx c m) (extractParams ctx' (c.withHash pwhash) m) := by
  unfold extractParams
  split
  · exact .inr ⟨0, c, pwhash, rfl, rfl⟩
  · exact extractLoop_withHash ctx ctx' m c pwhash _

namespace Accept

/-- The same login with another hash. -/
def withHash (l : Accept) (pwhash : Option CString) : Accept := { l with conn := l.conn.withHash pwhash }

variable {l : Accept} {pwhash : Option CString}

theorem reply_withHash (l : Accept) (pwhash : Option CString) (r : ℤ × Mbuf) :
    (l.withHash pwhash).reply r = ((l.reply r).1, (l.reply r).2.withHash pwhash) := by
  unfold reply
  simp only
  split_ifs <;> rfl

theorem challenge_withHash (l : Accept) (pwhash : Option CString) :
    (l.withHash pwhash).challenge = (l.challenge.1, l.challenge.2.withHash pwhash) :=
  reply_withHash l pwhash (authMd5Message l.mbuf l.conn)

theorem sslRequest_withHash (l : Accept) (pwhash : Option CString) :
    (l.withHash pwhash).sslRequest = l.sslRequest.withHash pwhash := by
  change (if (l.discard.kernel.write l.conn.fd NO_SSL).1.map List.length = some 1
    then l.discard.noSsl.withHash pwhash else (l.discard.noSsl.ret (-1)).withHash pwhash) = withHash
    (if (l.discard.kernel.write l.conn.fd NO_SSL).1.map List.length = some 1
    then l.discard.noSsl else l.discard.noSsl.ret (-1)) pwhash
  split_ifs <;> rfl

theorem relay_withHash (l : Accept) (pwhash : Option CString) :
    (l.withHash pwhash).relay = (l.relay.1, l.relay.2.withHash pwhash) := rfl

theorem mbuf_withHash (l : Accept) (pwhash : Option CString) (m : Mbuf) :
    { l.withHash pwhash with mbuf := m } = withHash { l with mbuf := m } pwhash := rfl

theorem refuse_withHash (l : Accept) (pwhash : Option CString) :
    (l.withHash pwhash).refuse = l.refuse.withHash pwhash := by
  have husername : (l.withHash pwhash).conn.username = l.conn.username := rfl
  have hmbuf : (l.withHash pwhash).mbuf = l.mbuf := rfl
  unfold refuse
  rw [husername, hmbuf, mbuf_withHash, relay_withHash]

/-- A StartupMessage is answered alike. -/
theorem startupMessage_withHash (l : Accept) (pwhash : Option CString) :
    ∃ p, (l.withHash pwhash).startupMessage ctx' = (l.startupMessage ctx).withHash p := by
  have hmbuf : (l.withHash pwhash).mbuf = l.mbuf := rfl
  have hconn : (l.withHash pwhash).conn = l.conn.withHash pwhash := rfl
  unfold startupMessage
  rw [hmbuf, hconn]
  obtain ⟨hnone, hnone'⟩ | ⟨rc, c, p, hsome, hsome'⟩ := extractParams_withHash ctx ctx' l.mbuf l.conn pwhash
  · rw [hnone, hnone']
    exact ⟨pwhash, rfl⟩
  · rw [hsome, hsome']
    refine ⟨p, ?_⟩
    simp only
    by_cases hrc : rc ≠ 0
    · rw [if_pos hrc, if_pos hrc]
      rfl
    · rw [if_neg hrc, if_neg hrc]
      change (if ((l.parsed c).withHash p).challenge.1 ≠ 0 then ((l.parsed c).withHash p).challenge.2.ret
        ((l.parsed c).withHash p).challenge.1 else ((l.parsed c).withHash p).challenge.2) = withHash
        (if (l.parsed c).challenge.1 ≠ 0 then (l.parsed c).challenge.2.ret (l.parsed c).challenge.1
        else (l.parsed c).challenge.2) p
      rw [challenge_withHash]
      split_ifs <;> rfl

/-- `check_auth` refuses the password, if one is received. -/
def Refuses (stack : ℕ → Octet) (l : Accept) : Prop :=
  l.stage = .receiving → 0 ≤ l.recv.1 → pgrMbufMsgtype l.recv.2.mbuf = chr 'p' →
    checkAuth stack l.recv.2.conn l.recv.2.mbuf ≠ none ∧ checkAuth stack l.recv.2.conn l.recv.2.mbuf ≠ some 0

instance (stack : ℕ → Octet) (l : Accept) : Decidable (Refuses stack l) := inferInstanceAs (Decidable (_ → _))

/-- A password that is refused leads to the same, whatever has been compared with. -/
theorem passwordMessage_refused (hnone : checkAuth stack l.conn l.mbuf ≠ none)
    (hzero : checkAuth stack l.conn l.mbuf ≠ some 0) : l.passwordMessage stack = l.discard.refuse.ret 1 := by
  obtain ⟨rc, hrc⟩ := Option.ne_none_iff_exists'.mp hnone
  have hwrong : rc ≠ 0 := fun h0 => hzero (h0 ▸ hrc)
  unfold passwordMessage
  rw [hrc]
  simp only
  rw [if_pos hwrong]
  rfl

/-- **A step** of the login, if no password is right. -/
theorem step_withHash (h : Refuses stack l) (h' : Refuses stack (l.withHash pwhash)) :
    ∃ p, (l.withHash pwhash).step ctx' stack = (l.step ctx stack).withHash p := by
  have hrecv : (l.withHash pwhash).recv = (l.recv.1, l.recv.2.withHash pwhash) := rfl
  have hstage : (l.withHash pwhash).stage = l.stage := rfl
  unfold step
  rw [hstage]
  cases hs : l.stage with
  | returned | fault => exact ⟨pwhash, rfl⟩
  | receiving =>
    simp only [round, hrecv]
    by_cases hfailed : l.recv.1 < 0
    · rw [if_pos hfailed, if_pos hfailed]
      exact ⟨pwhash, rfl⟩
    · rw [if_neg hfailed, if_neg hfailed]
      have hmbuf : (l.recv.2.withHash pwhash).mbuf = l.recv.2.mbuf := rfl
      simp only [dispatch, hmbuf]
      split_ifs with hssl hcancel hstartup hpassword
      · exact ⟨pwhash, sslRequest_withHash _ _⟩
      · exact ⟨pwhash, rfl⟩
      · exact startupMessage_withHash ctx ctx' _ _
      · obtain ⟨hnone, hzero⟩ := h hs (not_lt.mp hfailed) hpassword
        have hrefuses := h' hs (not_lt.mp hfailed) hpassword
        rw [hrecv] at hrefuses
        rw [passwordMessage_refused stack hnone hzero, passwordMessage_refused stack hrefuses.1 hrefuses.2,
          show (l.recv.2.withHash pwhash).discard = l.recv.2.discard.withHash pwhash from rfl, refuse_withHash]
        exact ⟨pwhash, rfl⟩
      · exact ⟨pwhash, rfl⟩

end Accept

end

end PgRouter.Login

namespace PgRouter.Worker.Serve

open Foundation Login Wire

variable {o : Outside} {ctx' : Context} {k : Kernel} {n : ℕ}

/-- Everything else being the same, the router has another authentication database. -/
def withDatabase (o : Outside) (ctx : Context) : Outside := { o with login := ctx }

/-- The login, if no password is right, is the same but for the hash. -/
theorem login_withHash (h : ∀ i < n, (login o k i).Refuses o.stack)
    (h' : ∀ i < n, (login (withDatabase o ctx') k i).Refuses o.stack) :
    ∃ p, login (withDatabase o ctx') k n = (login o k n).withHash p := by
  induction n with
  | zero => exact ⟨none, rfl⟩
  | succ n ih =>
    obtain ⟨p, hp⟩ := ih (fun i hi => h i (Nat.lt_succ_of_lt hi)) fun i hi => h' i (Nat.lt_succ_of_lt hi)
    have hstep := h' n (Nat.lt_succ_self n)
    rw [hp] at hstep
    obtain ⟨p', hp'⟩ := Accept.step_withHash o.login ctx' o.stack (h n (Nat.lt_succ_self n)) hstep
    refine ⟨p', ?_⟩
    have hnext : ∀ o : Outside, login o k (n + 1) = (login o k n).step o.login o.stack := fun o => Accept.run_succ ..
    rw [hnext, hnext, hp]
    exact hp'

/-- It does not let the client in. -/
theorem not_returned (h : ∀ i < n, (login o k i).Refuses o.stack) : (login o k n).stage ≠ .returned 0 := by
  intro hret
  obtain ⟨i, hi, hstage, hlast, hin⟩ := Accept.run_returned hret
  rcases Accept.step_cases o.login o.stack (login o k i) with ⟨hne, -⟩ | ⟨-, -, hstep⟩ | ⟨-, hrecv, -⟩
  · exact hne hstage
  · -- where nothing can be received, another value is returned
    have hrun : (login o k i).step o.login o.stack = login o k n := (Accept.run_succ ..).symm.trans hlast
    rw [← hrun, hstep] at hret
    exact absurd (Stage.returned.inj hret) (by decide)
  · exact (h i hi hstage hrecv hin.type).2 hin.auth

/-- The same has become of the client in both cases. -/
inductive Alike (o : Outside) (ctx' : Context) (k : Kernel) (n : ℕ) : Serve → Serve → Prop
  /-- It logs in. -/
  | accepting {i : ℕ} (rounds : i ≤ n) : Alike o ctx' k n (accepting (login o k i))
      (accepting (login (withDatabase o ctx') k i))
  /-- It has not been let in. -/
  | closed (k' : Kernel) : Alike o ctx' k n (closed k') (closed k')
  /-- Memory has been used that is not the router's own. -/
  | fault (k' : Kernel) : Alike o ctx' k n (fault k') (fault k')

theorem Alike.kernel {s s' : Serve} (halike : Alike o ctx' k n s s') (h : ∀ i < n, (login o k i).Refuses o.stack)
    (h' : ∀ i < n, (login (withDatabase o ctx') k i).Refuses o.stack) : s.kernel = s'.kernel := by
  cases halike with
  | @accepting i rounds =>
    obtain ⟨p, hp⟩ := login_withHash (fun j hj => h j (hj.trans_le rounds)) fun j hj => h' j (hj.trans_le rounds)
    exact (congrArg Accept.kernel hp).symm
  | closed | fault => rfl

/-- A step. -/
theorem Alike.step {s s' : Serve} (halike : Alike o ctx' k n s s') (h : ∀ i < n + 1, (login o k i).Refuses o.stack)
    (h' : ∀ i < n + 1, (login (withDatabase o ctx') k i).Refuses o.stack) :
    Alike o ctx' k (n + 1) (s.step o) (s'.step (withDatabase o ctx')) := by
  cases halike with
  | @accepting i rounds =>
    obtain ⟨p, hp⟩ : ∃ p, login (withDatabase o ctx') k i = (login o k i).withHash p :=
      login_withHash (fun j hj => h j (by omega)) fun j hj => h' j (by omega)
    have hreturned : (login o k i).stage ≠ .returned 0 := not_returned fun j hj => h j (by omega)
    have hstage : (login (withDatabase o ctx') k i).stage = (login o k i).stage := by
      rw [hp]
      rfl
    have hkernel : (login (withDatabase o ctx') k i).kernel = (login o k i).kernel := by
      rw [hp]
      rfl
    rw [Serve.step, Serve.step, hstage, hkernel]
    cases hs : (login o k i).stage with
    | receiving =>
      have hnext : ∀ o : Outside, (login o k i).step o.login o.stack = login o k (i + 1) := fun o =>
        (Accept.run_succ ..).symm
      simp only [hnext]
      exact .accepting (Nat.succ_le_succ rounds)
    | returned rc =>
      have hrc : rc ≠ 0 := fun h0 => hreturned (h0 ▸ hs)
      simp only
      rw [if_pos hrc, if_pos hrc]
      exact .closed _
    | fault => exact .fault _
  | closed k' => exact .closed k'
  | fault k' => exact .fault k'

/-- **What a client can learn of the database.** As long as `check_auth` refuses every password of the client, whichever
of two databases the router has, it writes the same to the client, and reads the same from it. -/
theorem refused_alike (o : Outside) (ctx' : Context) (k : Kernel) (n : ℕ)
    (h : ∀ i < n, (login o k i).Refuses o.stack) (h' : ∀ i < n, (login (withDatabase o ctx') k i).Refuses o.stack) :
    (run o k n).kernel = (run (withDatabase o ctx') k n).kernel := by
  suffices halike : Alike o ctx' k n (run o k n) (run (withDatabase o ctx') k n) from halike.kernel h h'
  induction n with
  | zero => exact .accepting le_rfl
  | succ n ih =>
    rw [run, run, Function.iterate_succ_apply', Function.iterate_succ_apply']
    exact (ih (fun i hi => h i (Nat.lt_succ_of_lt hi)) fun i hi => h' i (Nat.lt_succ_of_lt hi)).step h h'

/-- A client that says it is `bob`, and guesses. -/
def guessKernel : Kernel :=
  { Kernel.eager fun _ =>
      Accept.bobStartup ++ ([0x70, 0, 0, 0, 40, 0x6d, 0x64, 0x35] ++ List.replicate 32 0x30 ++ [0]) with
    reads := Stream'.cons (.upto Accept.bobStartup.length) (Stream'.const (.upto (2 ^ 16))) }

/-- It does not learn whether there is a `bob`. -/
theorem refused_alike_guess :
    (run bobOutside guessKernel 3).kernel = (run (withDatabase bobOutside Context.zero) guessKernel 3).kernel :=
  refused_alike bobOutside Context.zero guessKernel 3 (by decide +kernel) (by decide +kernel)

end PgRouter.Worker.Serve
