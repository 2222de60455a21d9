import PgRouter.Foundation.Reader
import PgRouter.Text.Lexer
import PgRouter.Wire.ShortWrites

/-!
# What the monitor tells

A client that connects to the monitor is told, line by line, how many backends there are and how many of
them are up, how many workers and clients there are, and then of each backend its endpoint, its role and
its status, and the lag and its threshold if it is up.

## The model

`monitorHandleClient` is `handle_client` of `monitor.c` without its locks: each line is printed and then
written with `pgr_sendf`, whose return value is not looked at. `readPage` is not in the source: it is what a
client can do with the text.

## What is proved

If no host name has a colon, the text can be read back: it determines all that is told, whatever the
numbers are (`readPage_pageText`). If no `write` fails, however little each takes, the client gets that
text and nothing else (`monitorHandleClient_wrote`).
-/

namespace PgRouter.Monitor

open Foundation Foundation.Reader Text Wire

/-! ### Printing -/

/-- `pgr_backend_status`. -/
def pgrBackendStatus : BackendStatus → CString
  | .ok => octets "OK"
  | .starting => octets "STARTING"
  | .failed => octets "FAILED"
  | .halfup => octets "HALF-UP"

/-- `pgr_backend_role`. -/
def pgrBackendRole : BackendRole → CString
  | .master => octets "master"
  | .slave => octets "slave"
  | .unknown => octets "unknown"

/-- The decimal figures of a number. -/
def decimal (n : ℕ) : List Octet := (figures n).map fun d => ch '0' + d.toUInt8

/-- `%d`. -/
def formatD (z : ℤ) : List Octet := if z < 0 then ch '-' :: decimal z.natAbs else decimal z.natAbs

/-- `%llu`. -/
def formatLlu (n : UInt64) : List Octet := decimal n.toNat

/-- The line for a backend. -/
def backendLine (b : Backend) : List Octet :=
  match b.status with
  | .ok => b.hostname ++ octets ":" ++ formatD b.port ++ octets " " ++ pgrBackendRole b.role ++ octets " " ++
      pgrBackendStatus b.status ++ octets " " ++ formatLlu b.lag ++ octets "/" ++ formatLlu b.threshold ++ octets "\n"
  | _ => b.hostname ++ octets ":" ++ formatD b.port ++ octets " " ++ pgrBackendRole b.role ++ octets " " ++
      pgrBackendStatus b.status ++ octets "\n"

/-- The line for the number of backends. -/
def backendsLine (okBackends : ℤ) (numBackends : ℕ) : List Octet :=
  octets "backends " ++ formatD okBackends ++ octets "/" ++ formatD numBackends ++ octets "\n"

/-- The line for the number of workers. -/
def workersLine (workers : ℤ) : List Octet := octets "workers " ++ formatD workers ++ octets "\n"

/-- The line for the number of clients. -/
def clientsLine (feConns : ℤ) : List Octet := octets "clients " ++ formatD feConns ++ octets "\n"

/-- The lines that a client is told. -/
def lines (c : Context) (feConns : ℤ) : List (List Octet) :=
  backendsLine c.okBackends c.backends.length :: workersLine c.workers :: clientsLine feConns ::
    c.backends.map backendLine

/-- `pgr_sendf`, of a text that has been printed. -/
def pgrSendf (k : Kernel) (fd : Fd) (text : List Octet) : ℤ × Kernel := pgrSendn k fd text

/-- `handle_client` of `monitor.c`. -/
def monitorHandleClient (k : Kernel) (c : Context) (feConns : ℤ) (connfd : Fd) : Kernel :=
  (lines c feConns).foldl (fun k line => (pgrSendf k connfd line).2) k

/-! ### What is told -/

/-- What is told of a backend. -/
structure Entry where
  /-- The host. -/
  hostname : CString
  /-- The port. -/
  port : ℤ
  /-- The role. -/
  role : BackendRole
  /-- The status. -/
  status : BackendStatus
  /-- The lag and its threshold, if the backend is up. -/
  lag : Option (Lag × Lag)
  deriving DecidableEq

/-- What a client is told. -/
structure Page where
  /-- How many backends are up. -/
  okBackends : ℤ
  /-- How many workers there are. -/
  workers : ℤ
  /-- How many clients are connected. -/
  clients : ℤ
  /-- The backends. -/
  backends : List Entry
  deriving DecidableEq

/-- What is told of a backend. -/
def Entry.of (b : Backend) : Entry :=
  ⟨b.hostname, b.port, b.role, b.status, if b.status = .ok then some (b.lag, b.threshold) else none⟩

/-- What a client is told. -/
def Page.of (c : Context) (feConns : ℤ) : Page := ⟨c.okBackends, c.workers, feConns, c.backends.map .of⟩

/-! ### Reading -/

/-- The number of a figure. -/
def figure (c : Octet) : ℕ := (c - ch '0').toNat

/-- Recovers decimal figures. -/
def readNat : Reader Octet ℕ := do
  let ds ← takeWhile isdigit
  return numeral 10 (ds.map figure)

/-- Recovers a number that may be negative. -/
def readInt : Reader Octet ℤ := do
  let negative ← oneOf [(octets "-", true), ([], false)]
  let n ← readNat
  return if negative then -n else n

/-- Recovers a role. -/
def readRole : Reader Octet BackendRole :=
  oneOf [(octets "master", .master), (octets "slave", .slave), (octets "unknown", .unknown)]

/-- Recovers a status. -/
def readStatus : Reader Octet BackendStatus :=
  oneOf [(octets "OK", .ok), (octets "STARTING", .starting), (octets "FAILED", .failed), (octets "HALF-UP", .halfup)]

/-- Recovers the rest of a line, after the status. -/
def readLag : BackendStatus → Reader Octet (Option (Lag × Lag))
  | .ok => do
    literal (octets " ")
    let lag ← readNat
    literal (octets "/")
    let threshold ← readNat
    return some (.ofNat lag, .ofNat threshold)
  | _ => return none

/-- Recovers the line for a backend. -/
def readEntry : Reader Octet Entry := do
  let hostname ← takeWhile (· ≠ ch ':')
  literal (octets ":")
  let port ← readInt
  literal (octets " ")
  let role ← readRole
  literal (octets " ")
  let status ← readStatus
  let lag ← readLag status
  literal (octets "\n")
  return ⟨hostname, port, role, status, lag⟩

/-- Recovers what a client is told. -/
def readLines : Reader Octet Page := do
  literal (octets "backends ")
  let okBackends ← readInt
  literal (octets "/")
  let numBackends ← readInt
  literal (octets "\nworkers ")
  let workers ← readInt
  literal (octets "\nclients ")
  let clients ← readInt
  literal (octets "\n")
  let backends ← times readEntry numBackends.toNat
  return ⟨okBackends, workers, clients, backends⟩

/-- What a client can read from a text. -/
def readPage (text : List Octet) : Option Page :=
  match readLines text with
  | some (page, []) => some page
  | _ => none

/-! ### What has been printed can be read -/

theorem figure_digit {d : ℕ} (h : d < 10) : figure (ch '0' + d.toUInt8) = d ∧ isdigit (ch '0' + d.toUInt8) = true := by
  have hall : ∀ d < 10, figure (ch '0' + d.toUInt8) = d ∧ isdigit (ch '0' + d.toUInt8) = true := by decide
  exact hall d h

/-- A number ends where a word follows that does not begin with a figure. -/
theorem readNat_recovers {n : ℕ} {w rest : List Octet} (hw : w.head?.map isdigit = some false) :
    Recovers readNat (decimal n) n (w ++ rest) := by
  have hdigits : ∀ c ∈ decimal n, isdigit c = true := by
    intro c hc
    obtain ⟨d, hd, rfl⟩ := List.mem_map.mp hc
    exact (figure_digit (figures_lt hd)).2
  refine (takeWhile_recovers hdigits hw).map ?_
  have hmap : (figures n).map (figure ∘ fun d => ch '0' + d.toUInt8) = (figures n).map id :=
    List.map_congr_left fun d hd => (figure_digit (figures_lt hd)).1
  rw [decimal, List.map_map, hmap, List.map_id, numeral_figures]

/-- A printed number has no sign. -/
theorem not_minus_prefix (n : ℕ) (rest : List Octet) : ¬ octets "-" <+: decimal n ++ rest := by
  obtain ⟨d, ds, hds⟩ := List.exists_cons_of_ne_nil (figures_ne_nil n)
  have hd := (figure_digit (figures_lt (n := n) (by simp [hds] : d ∈ figures n))).2
  rw [decimal, hds]
  rintro ⟨rest', hrest'⟩
  have hminus : ch '-' = ch '0' + d.toUInt8 := (List.cons.inj hrest').1
  rw [← hminus] at hd
  exact absurd hd (by decide)

theorem readInt_recovers {z : ℤ} {w rest : List Octet} (hw : w.head?.map isdigit = some false) :
    Recovers readInt (formatD z) z (w ++ rest) := by
  have hnat : Recovers readNat (decimal z.natAbs) z.natAbs (w ++ rest) := readNat_recovers hw
  unfold formatD
  split_ifs with hneg
  · have hsign :
        Recovers (oneOf [(octets "-", true), ([], false)]) (octets "-") true (decimal z.natAbs ++ (w ++ rest)) :=
      oneOf_recovers [] _ fun v hv => absurd hv List.not_mem_nil
    exact hsign.bind (hnat.map (by simp only [if_true]; omega))
  · have hsign : Recovers (oneOf [(octets "-", true), ([], false)]) [] false (decimal z.natAbs ++ (w ++ rest)) := by
      refine oneOf_recovers [(octets "-", true)] [] fun v hv => ?_
      obtain rfl := List.mem_singleton.mp hv
      exact not_minus_prefix _ _
    exact hsign.bind (hnat.map (by simp only [Bool.false_eq_true, if_false]; omega))

theorem readRole_recovers (role : BackendRole) (rest : List Octet) :
    Recovers readRole (pgrBackendRole role) role rest := by
  cases role with
  | master => exact oneOf_recovers [] _ fun v hv => absurd hv List.not_mem_nil
  | slave => exact oneOf_recovers [_] _ (by simp [octets, ch])
  | unknown => exact oneOf_recovers [_, _] _ (by simp [octets, ch])

theorem readStatus_recovers (status : BackendStatus) (rest : List Octet) :
    Recovers readStatus (pgrBackendStatus status) status rest := by
  cases status with
  | ok => exact oneOf_recovers [] _ fun v hv => absurd hv List.not_mem_nil
  | starting => exact oneOf_recovers [_] _ (by simp [octets, ch])
  | failed => exact oneOf_recovers [_, _] _ (by simp [octets, ch])
  | halfup => exact oneOf_recovers [_, _, _] _ (by simp [octets, ch])

/-- The rest of a line, after the status. -/
def lagText (b : Backend) : List Octet :=
  match b.status with
  | .ok => octets " " ++ (formatLlu b.lag ++ (octets "/" ++ formatLlu b.threshold))
  | _ => []

theorem backendLine_eq (b : Backend) : backendLine b = b.hostname ++ (octets ":" ++ (formatD b.port ++ (octets " " ++
    (pgrBackendRole b.role ++ (octets " " ++ (pgrBackendStatus b.status ++ (lagText b ++ octets "\n"))))))) := by
  unfold backendLine lagText
  cases b.status <;> simp only [List.append_assoc, List.nil_append]

theorem readLag_recovers (b : Backend) {w rest : List Octet} (hw : w.head?.map isdigit = some false) :
    Recovers (readLag b.status) (lagText b) (Entry.of b).lag (w ++ rest) := by
  have hslash : (octets "/").head?.map isdigit = some false := by decide
  have hlag : Entry.lag (.of b) = if b.status = .ok then some (b.lag, b.threshold) else none := rfl
  rw [hlag, lagText]
  cases b.status with
  | ok =>
    rw [readLag, if_pos rfl]
    refine (literal_recovers _ _).bind (Recovers.bind (b := b.lag.toNat) ?_ ?_)
    · simpa only [formatLlu, List.append_assoc] using readNat_recovers hslash
    · refine (literal_recovers _ _).bind ((readNat_recovers (n := b.threshold.toNat) hw).map ?_)
      rw [UInt64.ofNat_toNat, UInt64.ofNat_toNat]
  | starting | failed | halfup => exact pure_recovers _ _

/-- The line for a backend can be read, if its host name has no colon. -/
theorem readEntry_recovers {b : Backend} (hb : ch ':' ∉ b.hostname) (rest : List Octet) :
    Recovers readEntry (backendLine b) (.of b) rest := by
  have hhost : ∀ c ∈ b.hostname, decide (c ≠ ch ':') = true := fun c hc => decide_eq_true (ne_of_mem_of_not_mem hc hb)
  have hcolon : (octets ":").head?.map (fun c => decide (c ≠ ch ':')) = some false := by decide
  have hspace : (octets " ").head?.map isdigit = some false := by decide
  have hnewline : (octets "\n").head?.map isdigit = some false := by decide
  rw [backendLine_eq]
  unfold readEntry
  refine Recovers.bind (by simpa only [List.append_assoc] using takeWhile_recovers hhost hcolon) ?_
  refine (literal_recovers _ _).bind
    (Recovers.bind (by simpa only [List.append_assoc] using readInt_recovers hspace) ?_)
  refine (literal_recovers _ _).bind ((readRole_recovers _ _).bind ?_)
  refine (literal_recovers _ _).bind ((readStatus_recovers _ _).bind ?_)
  exact (readLag_recovers b hnewline).bind ((literal_recovers _ _).map rfl)

/-- The text that a client is told. -/
def pageText (c : Context) (feConns : ℤ) : List Octet := (lines c feConns).flatten

/-- **What a client is told can be read back**, if no host name has a colon. -/
theorem readPage_pageText {c : Context} (hosts : ∀ b ∈ c.backends, ch ':' ∉ b.hostname) (feConns : ℤ) :
    readPage (pageText c feConns) = some (.of c feConns) := by
  have hslash : (octets "/").head?.map isdigit = some false := by decide
  have hworkers : (octets "\nworkers ").head?.map isdigit = some false := by decide
  have hclients : (octets "\nclients ").head?.map isdigit = some false := by decide
  have hnewline : (octets "\n").head?.map isdigit = some false := by decide
  have hbackends :
      Recovers (times readEntry c.backends.length) (c.backends.flatMap backendLine) (c.backends.map .of) [] :=
    Recovers.times fun b hb rest => readEntry_recovers (hosts b hb) rest
  have htext : pageText c feConns = octets "backends " ++ (formatD c.okBackends ++ (octets "/" ++
      (formatD c.backends.length ++ (octets "\nworkers " ++ (formatD c.workers ++ (octets "\nclients " ++
        (formatD feConns ++ (octets "\n" ++ c.backends.flatMap backendLine)))))))) := by
    have hw : octets "\nworkers " = octets "\n" ++ octets "workers " := rfl
    have hc : octets "\nclients " = octets "\n" ++ octets "clients " := rfl
    rw [hw, hc, pageText, lines, List.flatMap_def, backendsLine, workersLine, clientsLine]
    simp only [List.flatten_cons, List.append_assoc]
  have hread : Recovers readLines (pageText c feConns) (.of c feConns) [] := by
    rw [htext]
    unfold readLines
    refine (literal_recovers _ _).bind
      (Recovers.bind (by simpa only [List.append_assoc] using readInt_recovers hslash) ?_)
    refine (literal_recovers _ _).bind
      (Recovers.bind (by simpa only [List.append_assoc] using readInt_recovers hworkers) ?_)
    refine (literal_recovers _ _).bind
      (Recovers.bind (by simpa only [List.append_assoc] using readInt_recovers hclients) ?_)
    refine (literal_recovers _ _).bind
      (Recovers.bind (by simpa only [List.append_assoc] using readInt_recovers hnewline) ?_)
    exact (literal_recovers _ _).bind (hbackends.map rfl)
  rw [Recovers, List.append_nil] at hread
  rw [readPage, hread]

/-! ### What is written -/

/-- Lines are written one after the other: the beginning of each, and all of it if no `write` fails. -/
theorem foldl_pgrSendf_wrote (k : Kernel) (fd : Fd) (lines : List (List Octet)) :
    ∃ ws, List.Forall₂ (· <+: ·) ws lines ∧ (k.WritesSome → ws = lines) ∧
      k.Wrote fd ws.flatten (lines.foldl (fun k line => (pgrSendf k fd line).2) k) := by
  induction lines generalizing k with
  | nil => exact ⟨[], .nil, fun _ => rfl, (Kernel.Asked.refl k).wrote fd⟩
  | cons line lines ih =>
    obtain ⟨hwritten, hall, hwrote⟩ := writeLoop_spec k fd line
    obtain ⟨ws, hws, hsome, hrest⟩ := ih (pgrSendf k fd line).2
    refine ⟨(writeLoop k fd line).2.1 :: ws, .cons hwritten hws, fun hw => ?_, hwrote.trans hrest⟩
    rw [hall.mp (writeLoop_of_writesSome hw fd line), hsome (hwrote.follows.writesSome hw)]

/-- **What a client is told is the text**, however little each `write` takes, if none fails. -/
theorem monitorHandleClient_wrote {k : Kernel} (hw : k.WritesSome) (c : Context) (feConns : ℤ) (connfd : Fd) :
    k.Wrote connfd (pageText c feConns) (monitorHandleClient k c feConns connfd) := by
  obtain ⟨ws, -, hsome, hwrote⟩ := foldl_pgrSendf_wrote k connfd (lines c feConns)
  rwa [hsome hw] at hwrote

end PgRouter.Monitor
