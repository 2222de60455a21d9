import PgRouter.Net.Scan

/-!
# Binding to endpoints

`ipv4_endpoint` and `ipv6_endpoint` of `net.c` make a socket address of an endpoint, and `pgr_listen6` binds a socket
to it. The address is zeroed beforehand, and zero is the wildcard address.

## The model

What the system does is a parameter (`Os`): `inet_pton` is any partial function on hosts, and `calloc`, `socket`,
`bind` and `listen` succeed or fail. Options of the socket, which do not matter to what it is bound to, are left out.

## What is proved

`ipv4_endpoint` returns what `inet_pton` finds of the host, and `ipv6_endpoint` returns `0` for any host. So an
endpoint is accepted only with its own address and port just when it is refused for its port, or `inet_pton` accepts
the host, if it is not `*`, and the port is a numeral of at most 65535 (`neverWidened_iff`). Another host is bound to
the wildcard address.
-/

namespace PgRouter.Net

open Foundation Wire Text

/-- The families of addresses. -/
inductive Family where
  /-- `AF_UNSPEC`. -/
  | unspec
  /-- `AF_INET`. -/
  | inet
  /-- `AF_INET6`. -/
  | inet6
  deriving DecidableEq

/-- A socket address, `sockaddr_in` or `sockaddr_in6`. -/
structure Sockaddr (α : Type) where
  /-- The family. -/
  family : Family
  /-- The port, in the order of the network. -/
  port : UInt16
  /-- The address. -/
  addr : α
  deriving DecidableEq

/-- `in_addr`. -/
abbrev InAddr := BitVec 32

/-- `in6_addr`. -/
abbrev In6Addr := BitVec 128

/-- `INADDR_ANY`. -/
def INADDR_ANY : InAddr := 0

/-- `in6addr_any`. -/
def in6addr_any : In6Addr := 0

/-- What the system does. -/
structure Os where
  /-- Whether `calloc` succeeds. -/
  calloc : Bool
  /-- `inet_pton(AF_INET, …)`. -/
  pton4 : CString → Option InAddr
  /-- `inet_pton(AF_INET6, …)`. -/
  pton6 : CString → Option In6Addr
  /-- `socket`. -/
  socket : ℤ
  /-- `bind`. -/
  bind : ℤ
  /-- `listen`. -/
  listen : ℤ

/-- `htons`. -/
def htons (port : ℤ) : UInt16 := UInt16.ofInt port

/-- The body of `ipv4_hostport` and `ipv6_hostport`. -/
def hostportOf {α : Type} (family : Family) (any : α) (pton : CString → Option α) (sa : Sockaddr α) (host : CString)
    (port : ℤ) : ℤ × Sockaddr α :=
  let sa := { sa with family := family, port := htons port }
  if host = [ch '*'] then (0, { sa with addr := any })
  else
    match pton host with
    | some addr => (0, { sa with addr := addr })
    | none => (-1, sa)

/-- `ipv4_hostport`. -/
def ipv4Hostport (os : Os) : Sockaddr InAddr → CString → ℤ → ℤ × Sockaddr InAddr :=
  hostportOf .inet INADDR_ANY os.pton4

/-- `ipv6_hostport`. -/
def ipv6Hostport (os : Os) : Sockaddr In6Addr → CString → ℤ → ℤ × Sockaddr In6Addr :=
  hostportOf .inet6 in6addr_any os.pton6

/-- `ipv4_endpoint`. -/
def ipv4Endpoint (os : Os) (sa : Sockaddr InAddr) (ep : List Octet) : Option (ℤ × Sockaddr InAddr) := do
  let port ← getport ep
  let host ← gethost os.calloc ep
  match host with
  | none => return (-1, sa)
  | some host => if port < 0 then return (-1, sa) else return ipv4Hostport os sa host port

/-- `ipv6_endpoint`. -/
def ipv6Endpoint (os : Os) (sa : Sockaddr In6Addr) (ep : List Octet) : Option (ℤ × Sockaddr In6Addr) := do
  let port ← getport ep
  let host ← gethost os.calloc ep
  match host with
  | none => return (-1, sa)
  | some host =>
    if port < 0 then return (-1, sa)
    else
      let (_, sa) := ipv6Hostport os sa host port
      return (0, sa)

/-- `bind_and_listen`: what it returns, and the address that it binds the socket `fd` to. -/
def bindAndListen (os : Os) (sa : Sockaddr In6Addr) (fd : ℤ) : ℤ × Option (Sockaddr In6Addr) :=
  if os.bind ≠ 0 then (-1, none) else if os.listen ≠ 0 then (-1, some sa) else (fd, some sa)

/-- `pgr_listen6`: what it returns, and the address that a socket is bound to. -/
def pgrListen6 (os : Os) (ep : List Octet) : Option (ℤ × Option (Sockaddr In6Addr)) := do
  let (rc, sa) ← ipv6Endpoint os ⟨.unspec, 0, 0⟩ ep
  if rc ≠ 0 then return (rc, none)
  else if os.socket < 0 then return (-1, none)
  else return bindAndListen os sa os.socket

/-! ### What an endpoint becomes -/

variable {os : Os} {host port : CString}

/-- The text of an endpoint, in a memory. -/
def endpoint (host port : CString) (behind : List Octet) : List Octet := host ++ ch ':' :: (port ++ 0 :: behind)

/-- A host and a port, which make an endpoint. -/
structure Parts (host port : CString) : Prop where
  /-- There is no NUL in the host. -/
  host_zero : 0 ∉ host
  /-- There is no colon in the host. -/
  host_colon : ch ':' ∉ host
  /-- There is no NUL in the port. -/
  port_zero : 0 ∉ port

/-- An endpoint is refused for lack of memory, or for its port. -/
def Refused (os : Os) (port : CString) : Prop := os.calloc = false ∨ portOf port < 0

instance (os : Os) (port : CString) : Decidable (Refused os port) := inferInstanceAs (Decidable (_ ∨ _))

/-- The scanners find the parts. -/
theorem scan_endpoint (hp : Parts host port) (calloc : Bool) (behind : List Octet) :
    getport (endpoint host port behind) = some (portOf port) ∧
      gethost calloc (endpoint host port behind) = some (if calloc then some host else none) := by
  have hs : 0 ∉ host ++ ch ':' :: port := by
    rw [List.mem_append, List.mem_cons, not_or, not_or]
    exact ⟨hp.host_zero, by decide, hp.port_zero⟩
  have hsplit : Splits (ch ':') (host ++ ch ':' :: port) host port := ⟨rfl, hp.host_colon⟩
  have htext : endpoint host port behind = (host ++ ch ':' :: port) ++ 0 :: behind := by simp [endpoint]
  rw [htext]
  exact ⟨getport_splits hs hsplit behind, gethost_splits hs hsplit calloc behind⟩

/-- `ipv4_endpoint` returns what `ipv4_hostport` returns. -/
theorem ipv4Endpoint_eq (hp : Parts host port) (sa : Sockaddr InAddr) (behind : List Octet) :
    ipv4Endpoint os sa (endpoint host port behind) =
      some (if Refused os port then (-1, sa) else ipv4Hostport os sa host (portOf port)) := by
  obtain ⟨hport, hhost⟩ := scan_endpoint hp os.calloc behind
  simp only [ipv4Endpoint, hport, hhost, Option.bind_eq_bind, Option.bind_some, Refused]
  by_cases hc : os.calloc = true <;> by_cases hneg : portOf port < 0 <;> simp [hc, hneg]

/-- **`ipv6_endpoint` does not**: unless the endpoint is refused, it returns `0`. -/
theorem ipv6Endpoint_eq (hp : Parts host port) (sa : Sockaddr In6Addr) (behind : List Octet) :
    ipv6Endpoint os sa (endpoint host port behind) =
      some (if Refused os port then (-1, sa) else (0, (ipv6Hostport os sa host (portOf port)).2)) := by
  obtain ⟨hport, hhost⟩ := scan_endpoint hp os.calloc behind
  simp only [ipv6Endpoint, hport, hhost, Option.bind_eq_bind, Option.bind_some, Refused]
  by_cases hc : os.calloc = true <;> by_cases hneg : portOf port < 0 <;> simp [hc, hneg]

/-- A socket is bound to what `ipv6_endpoint` has made of the endpoint, if it has returned `0`. -/
theorem ipv6Endpoint_of_bound {ep : List Octet} {rc : ℤ} {sa : Sockaddr In6Addr}
    (h : pgrListen6 os ep = some (rc, some sa)) : ipv6Endpoint os ⟨.unspec, 0, 0⟩ ep = some (0, sa) := by
  obtain ⟨⟨rc', sa'⟩, hep, h⟩ := Option.bind_eq_some_iff.mp h
  by_cases h0 : rc' = 0
  · subst h0
    simp only [ne_eq, not_true_eq_false, if_false, bindAndListen] at h
    split_ifs at h <;> cases h
    · exact hep
    · exact hep
  · simp only [ne_eq, h0, not_false_eq_true, if_true] at h
    cases h

/-! ### Never widened -/

/-- The address of a host. -/
def Address (os : Os) (host : CString) (addr : In6Addr) : Prop :=
  if host = [ch '*'] then addr = in6addr_any else os.pton6 host = some addr

/-- The socket address is that of the host and the port. -/
structure Own (os : Os) (host port : CString) (sa : Sockaddr In6Addr) : Prop where
  /-- The family. -/
  family : sa.family = .inet6
  /-- The port. -/
  port : Denotes port sa.port.toNat
  /-- The address. -/
  addr : Address os host sa.addr

/-- The endpoint is never bound to something else than its own address. -/
structure NeverWidened (os : Os) (host port : CString) : Prop where
  /-- `ipv6_endpoint` returns `0` only with this. -/
  accepted : ∀ sa sa' behind, ipv6Endpoint os sa (endpoint host port behind) = some (0, sa') → Own os host port sa'
  /-- For a host that has no address it returns something else. -/
  refused : (∀ addr, ¬Address os host addr) →
    ∀ sa behind, ∃ rc sa', ipv6Endpoint os sa (endpoint host port behind) = some (rc, sa') ∧ rc ≠ 0
  /-- `pgr_listen6` binds a socket to nothing else. -/
  bound : ∀ behind rc sa, pgrListen6 os (endpoint host port behind) = some (rc, some sa) → Own os host port sa

/-- The host is `*` or one that `inet_pton` accepts, and the port is a numeral of at most 65535. -/
def Bindable (os : Os) (host port : CString) : Prop :=
  (host = [ch '*'] ∨ (os.pton6 host).isSome) ∧ ∃ n ≤ 0xffff, Denotes port n

theorem exists_address : (∃ addr, Address os host addr) ↔ host = [ch '*'] ∨ (os.pton6 host).isSome := by
  unfold Address
  split_ifs with hstar
  · exact iff_of_true ⟨in6addr_any, rfl⟩ (.inl hstar)
  · rw [or_iff_right hstar, Option.isSome_iff_exists]

/-- What `ipv6_hostport` makes of a host that has an address. -/
theorem own_hostport (h : Bindable os host port) (sa : Sockaddr In6Addr) :
    Own os host port (ipv6Hostport os sa host (portOf port)).2 := by
  obtain ⟨hhost, n, hn, hport⟩ := h
  have htons : (htons (portOf port)).toNat = n := by
    rw [portOf_denotes hport hn, htons, UInt16.ofInt, UInt16.toNat_ofNat']
    omega
  unfold ipv6Hostport hostportOf
  by_cases hstar : host = [ch '*']
  · simp only [if_pos hstar]
    exact ⟨rfl, htons.symm ▸ hport, by rw [Address, if_pos hstar]⟩
  · obtain ⟨addr, haddr⟩ := Option.isSome_iff_exists.mp (hhost.resolve_left hstar)
    simp only [if_neg hstar, haddr]
    exact ⟨rfl, htons.symm ▸ hport, by rw [Address, if_neg hstar, haddr]⟩

/-- **An endpoint is never widened** just when it is refused for its port or can be bound. -/
theorem neverWidened_iff (hp : Parts host port) :
    NeverWidened os host port ↔ Refused os port ∨ Bindable os host port := by
  have hep := @ipv6Endpoint_eq os host port hp
  by_cases hrefused : Refused os port
  · refine iff_of_true ?_ (.inl hrefused)
    simp only [if_pos hrefused] at hep
    have hno : ∀ {sa sa' behind}, ¬ipv6Endpoint os sa (endpoint host port behind) = some (0, sa') := by
      intro sa sa' behind h
      rw [hep] at h
      cases h
    exact ⟨fun sa sa' behind h => absurd h hno, fun _ sa behind => ⟨-1, sa, hep sa behind, by decide⟩,
      fun behind rc sa h => absurd (ipv6Endpoint_of_bound h) hno⟩
  · rw [or_iff_right hrefused]
    simp only [if_neg hrefused] at hep
    constructor
    · intro h
      obtain ⟨-, hport, haddr⟩ := h.accepted ⟨.unspec, 0, 0⟩ _ [] (hep _ [])
      exact ⟨exists_address.mp ⟨_, haddr⟩, _, Nat.le_of_lt_succ (UInt16.toNat_lt _), hport⟩
    · intro h
      have hown : ∀ {sa sa' behind}, ipv6Endpoint os sa (endpoint host port behind) = some (0, sa') →
          Own os host port sa' := by
        intro sa sa' behind hsome
        obtain rfl := (Prod.mk.inj (Option.some.inj ((hep sa behind).symm.trans hsome))).2
        exact own_hostport h sa
      exact ⟨fun sa sa' behind => hown, fun hnone => (exists_address.mpr h.1).elim fun addr haddr =>
        absurd haddr (hnone addr), fun behind rc sa hbound => hown (ipv6Endpoint_of_bound hbound)⟩

/-- A system whose `inet_pton` accepts `::1` only. -/
def someOs : Os where
  calloc := true
  pton4 _ := none
  pton6 host := if host = octets "::1" then some 1 else none
  socket := 3
  bind := 0
  listen := 0

/-- The wildcard is asked for. -/
theorem neverWidened_star : NeverWidened someOs (octets "*") (octets "5432") :=
  (neverWidened_iff ⟨by decide, by decide, by decide⟩).mpr
    (.inr ⟨.inl rfl, 5432, by decide, denotes_iff.mpr (by decide +kernel)⟩)

/-- An IPv4 literal is bound to the wildcard address. -/
theorem not_neverWidened_ipv4 : ¬∀ (os : Os) (host port : CString), Parts host port → NeverWidened os host port := by
  intro hall
  have h := hall someOs (octets "127.0.0.1") (octets "5432") ⟨by decide, by decide, by decide⟩
  have hbound := h.bound [] 3 ⟨.inet6, 5432, in6addr_any⟩ (by decide +kernel)
  exact absurd hbound.addr (by unfold Address; decide +kernel)

end PgRouter.Net
