import Maturin.Socket.Socket

/-!
# The calls on sockets

The calls of `syscall/socket.rs` that build connections and move data. A connection is requested by
writing the own address, eight bytes, to the port 100 above the one that listens, and accepted by
reading at most 64 bytes there. The new socket has the endpoints of the one that listens, whose
remote one was set to the address that was read.

The descriptors of the arguments are open, and the memory of the others is mapped.
-/

open Exec Function

namespace Maturin

/-! ## Addresses in memory -/

namespace IpAddr

/-- The address in memory: the port and the address are in network order. -/
def toBytes (self : IpAddr) : List UInt8 :=
  [.ofBitVec (self.family.extractLsb' 0 8), .ofBitVec (self.family.extractLsb' 8 8),
    .ofBitVec (self.port.extractLsb' 8 8), .ofBitVec (self.port.extractLsb' 0 8),
    .ofBitVec (self.addr.extractLsb' 24 8), .ofBitVec (self.addr.extractLsb' 16 8),
    .ofBitVec (self.addr.extractLsb' 8 8), .ofBitVec (self.addr.extractLsb' 0 8)]

/-- The address that memory holds. -/
def ofBytes (mem : List UInt8) : IpAddr where
  family := (mem.getD 1 0).toBitVec ++ (mem.getD 0 0).toBitVec
  port := (mem.getD 2 0).toBitVec ++ (mem.getD 3 0).toBitVec
  addr := (mem.getD 4 0).toBitVec ++ (mem.getD 5 0).toBitVec ++ (mem.getD 6 0).toBitVec ++
    (mem.getD 7 0).toBitVec

@[simp] theorem length_toBytes (a : IpAddr) : a.toBytes.length = 8 := rfl

theorem ofBytes_toBytes (a : IpAddr) (rest : List UInt8) : ofBytes (a.toBytes ++ rest) = a := by
  have hport : ∀ x : BitVec 16, x.extractLsb' 8 8 ++ x.extractLsb' 0 8 = x := fun x ↦ by
    rw [BitVec.extractLsb'_append_extractLsb'_eq_extractLsb' (by decide),
      BitVec.extractLsb'_eq_self]
  have haddr : ∀ x : BitVec 32, x.extractLsb' 24 8 ++ x.extractLsb' 16 8 ++ x.extractLsb' 8 8 ++
      x.extractLsb' 0 8 = x := fun x ↦ by
    rw [BitVec.extractLsb'_append_extractLsb'_eq_extractLsb' (by decide),
      BitVec.extractLsb'_append_extractLsb'_eq_extractLsb' (by decide),
      BitVec.extractLsb'_append_extractLsb'_eq_extractLsb' (by decide), BitVec.extractLsb'_eq_self]
  obtain ⟨family, port, addr⟩ := a
  change IpAddr.mk (family.extractLsb' 8 8 ++ family.extractLsb' 0 8)
    (port.extractLsb' 8 8 ++ port.extractLsb' 0 8) _ = _
  rw [hport, hport]
  exact congrArg (IpAddr.mk family port) (haddr addr)

end IpAddr

/-! ## The calls -/

/-- The sockets by number; those from `next` on have not been made. -/
structure SocketTable where
  sockets : ℕ → Socket
  next : ℕ

abbrev SockState := SocketTable × Net

/-- Two sockets, and one that listens at the port 7. -/
def SockState.listening : SockState :=
  (⟨fun k ↦ if k = 2 then { Socket.new with localEndpoint := some (.ip 0 7), isListening := true }
    else .new, 3⟩, .boot)

/-- `set_endpoint` -/
def setEndpoint (k : ℕ) (addr : IpAddr) (isRemote : Bool) :
    EStateM Panic SockState (Option Port) := do
  let s ← get
  let (r, sock) ← onSnd ((s.1.sockets k).setEndpoint addr isRemote)
  modify fun s ↦ ({ s.1 with sockets := update s.1.sockets k sock }, s.2)
  pure r

/-- What a socket that got the local port `lport` writes to ask for a connection: its address. -/
def request (lport : Port) : List UInt8 := (IpAddr.mk 2 lport LOCAL_LOOPBACK_ADDR).toBytes

@[simp] theorem length_request (lport : Port) : (request lport).length = 8 := rfl

/-- `sys_connect` -/
def sysConnect (checks : Bool) (k : ℕ) (addr : IpAddr) :
    EStateM Panic SockState (Except ErrorNo ℕ) := do
  match ← setEndpoint k ⟨2, 0, 0⟩ false with
  | some lport =>
    let s ← get
    match ← onSnd ((s.1.sockets k).sendto checks (request lport) 100 (some addr)) with
    | some _ =>
      let _ ← setEndpoint k addr true
      pure (.ok 0)
    | none => pure (.error .ECONNREFUSED)
  | none => pure (.error .EINVAL)

/-- `sys_accept4`, once through its loop. `user` is the memory to which the address is written, and
`hasFd` tells whether the process has a free descriptor; the result is the number of the new socket,
with the number of bytes written and the memory afterwards. `EAGAIN` is returned, or the loop goes
on. -/
def sysAccept4 (checks : Bool) (k : ℕ) (user : List UInt8) (hasFd : Bool) :
    EStateM Panic SockState (Except ErrorNo (ℕ × ℕ × List UInt8)) := do
  let s ← get
  match ← onSnd ((s.1.sockets k).recvfrom checks (List.replicate 64 0) 100 none) with
  | (some readLen, buffer) =>
    let user := buffer.take readLen ++ user.drop readLen
    let _ ← setEndpoint k (.ofBytes user) true
    if hasFd then
      let s ← get
      let sock := (s.1.sockets k).clonew
      let table : SocketTable := ⟨update s.1.sockets s.1.next sock, s.1.next + 1⟩
      set (table, s.2)
      pure (.ok (s.1.next, readLen, user))
    else pure (.error .EMFILE)
  | (none, _) => pure (.error .EAGAIN)

/-- `sys_sendto`, to an address or to the remote endpoint -/
def sysSendto (checks : Bool) (k : ℕ) (data : List UInt8) (flags : BitVec 32)
    (dest : Option IpAddr) : EStateM Panic SockState (Except ErrorNo ℕ) := do
  let s ← get
  match ← onSnd ((s.1.sockets k).sendto checks data flags dest) with
  | some writeLen => pure (.ok writeLen)
  | none => pure (.error .EINVAL)

/-- `sys_recvfrom`, once through its loop: the number of bytes read, and the buffer afterwards.
`EAGAIN` is returned, or the loop goes on. The flags and the address that it is given are not looked
at. -/
def sysRecvfrom (checks : Bool) (k : ℕ) (buf : List UInt8) :
    EStateM Panic SockState (Except ErrorNo (ℕ × List UInt8)) := do
  let s ← get
  match ← onSnd ((s.1.sockets k).recvfrom checks buf 0 none) with
  | (some readLen, buf) => pure (.ok (readLen, buf))
  | (none, _) => pure (.error .EAGAIN)

/-! ## What the calls do -/

section wp

variable {s : SockState} {k : ℕ} {checks : Bool} {E : Panic → SockState → Prop}

/-- A socket changes. -/
def SocketTable.set (self : SocketTable) (k : ℕ) (sock : Socket) : SocketTable :=
  { self with sockets := update self.sockets k sock }

/-- The local endpoint of a socket that connects. -/
theorem wp_setEndpoint_local {Q : Option Port → SockState → Prop} :
    wp (setEndpoint k ⟨2, 0, 0⟩ false) Q E s ↔ Q (some s.2.getEphemeralPort.1)
      (s.1.set k { s.1.sockets k with localEndpoint := some (.ip 0 s.2.getEphemeralPort.1) },
        s.2.getEphemeralPort.2) := Iff.rfl

theorem wp_setEndpoint_remote {Q : Option Port → SockState → Prop} {addr : IpAddr}
    {ip : BitVec 32} {port : Port} (h : addrResolution addr = .ip ip port) :
    wp (setEndpoint k addr true) Q E s ↔ Q (some port)
      (s.1.set k { s.1.sockets k with remoteEndpoint := some (.ip ip port) }, s.2) := by
  rw [setEndpoint, wp_bind, wp_get, wp_bind, wp_onSnd, Socket.setEndpoint, h]
  exact Iff.rfl

/-- The state after a call that asked `port` for a connection, with as much of the request in the
queue as there was room for. -/
structure Connects (s : SockState) (k : ℕ) (ip : BitVec 32) (port : Port) (s' : SockState) :
    Prop where
  table : s'.1 = s.1.set k { s.1.sockets k with
    localEndpoint := some (.ip 0 s.2.getEphemeralPort.1), remoteEndpoint := some (.ip ip port) }
  queue : ∀ p, s'.2.queue p = if p = port + 100 then s.2.queue p ++
    (request s.2.getEphemeralPort.1).take (s.2.room p (request s.2.getEphemeralPort.1))
    else s.2.queue p
  ephemeral : s'.2.ephemeralPort = s.2.getEphemeralPort.1

/-- The state after a call that was refused. -/
structure Refuses (s : SockState) (k : ℕ) (s' : SockState) : Prop where
  table : s'.1 = s.1.set k { s.1.sockets k with
    localEndpoint := some (.ip 0 s.2.getEphemeralPort.1) }
  queue : ∀ p, s'.2.queue p = s.2.queue p
  ephemeral : s'.2.ephemeralPort = s.2.getEphemeralPort.1

theorem writeToPort_ephemeralPort (net : Net) (port : Port) (buf : List UInt8) :
    (net.writeToPort port buf).2.ephemeralPort = net.ephemeralPort := by
  rw [Net.writeToPort]
  split <;> rfl

theorem readFromPort_ephemeralPort (net : Net) (port : Port) (buf : List UInt8) :
    (net.readFromPort port buf).2.ephemeralPort = net.ephemeralPort := by
  rw [Net.readFromPort]
  split
  · split_ifs <;> rfl
  · rfl

/-- The port of requests, unless it overflows. -/
theorem wp_addPort (port : Port) (net : Net) :
    wp (addPort checks port 100 : EStateM Panic Net Port)
      (fun target net' ↦ target = port + 100 ∧ net' = net) anyPanic net := by
  rw [addPort]
  split_ifs <;> trivial

/-- A port of this machine gets the request, unless its queue is full. -/
theorem wp_sysConnect {addr : IpAddr} {ip : BitVec 32} {port : Port}
    (haddr : addrResolution addr = .ip ip port) (hip : Socket.isLoopback ip = true)
    (hport : port ≠ 0) :
    wp (sysConnect checks k addr) (fun r s' ↦
      if s.2.room (port + 100) (request s.2.getEphemeralPort.1) = 0 then
        r = .error .ECONNREFUSED ∧ Refuses s k s'
      else r = .ok 0 ∧ Connects s k ip port s') anyPanic s := by
  rw [sysConnect, wp_bind, wp_setEndpoint_local]
  dsimp only
  rw [wp_bind, wp_get, wp_bind, wp_onSnd, Socket.sendto]
  dsimp only
  rw [haddr]
  dsimp only
  rw [if_pos hip, wp_bind, Socket.sendPort, if_pos rfl, if_neg hport]
  have hwrite := Net.writeToPort_spec s.2.getEphemeralPort.2 (port + 100)
    (request s.2.getEphemeralPort.1)
  have heph := writeToPort_ephemeralPort s.2.getEphemeralPort.2 (port + 100)
    (request s.2.getEphemeralPort.1)
  refine wp_imp (wp_addPort port s.2.getEphemeralPort.2) fun target net ht ↦ ?_
  obtain ⟨rfl, rfl⟩ := ht
  rw [wp_modifyGet]
  generalize Net.writeToPort (port + 100) (request s.2.getEphemeralPort.1)
    s.2.getEphemeralPort.2 = res at hwrite heph ⊢
  obtain ⟨r, net'⟩ := res
  obtain ⟨hr, hqueue⟩ := hwrite
  dsimp only at hr hqueue heph ⊢
  change r = (if s.2.room _ _ = 0 then _ else some (s.2.room _ _)) at hr
  -- the request is written as a whole or not at all
  by_cases hroom : s.2.room (port + 100) (request s.2.getEphemeralPort.1) = 0
  · rw [if_pos hroom] at hr
    subst hr
    dsimp only
    rw [wp_pure, if_pos hroom]
    refine ⟨rfl, rfl, fun p ↦ ?_, heph⟩
    refine (hqueue p).trans ?_
    split_ifs with hp
    · change s.2.queue _ ++ List.take (s.2.room _ _) _ = _
      rw [hroom, List.take_zero, List.append_nil, hp]
    · rfl
  · rw [if_neg hroom] at hr
    subst hr
    dsimp only
    rw [wp_bind, wp_setEndpoint_remote haddr, wp_pure, if_neg hroom]
    refine ⟨rfl, ?_, fun p ↦ ?_, heph⟩
    · change (s.1.set k _).set k _ = _
      rw [SocketTable.set, SocketTable.set, SocketTable.set]
      dsimp only
      rw [update_idem, update_self]
    · refine (hqueue p).trans ?_
      split_ifs with hp
      · rw [hp]
        rfl
      · rfl

/-- An address of another machine is refused. -/
theorem wp_sysConnect_other {addr : IpAddr}
    (h : ∀ ip port, addrResolution addr = .ip ip port → Socket.isLoopback ip = false) :
    wp (sysConnect checks k addr) (fun r s' ↦ r = .error .ECONNREFUSED ∧ Refuses s k s') E s := by
  have hrefuses : Refuses s k (s.1.set k { s.1.sockets k with
      localEndpoint := some (.ip 0 s.2.getEphemeralPort.1) }, s.2.getEphemeralPort.2) :=
    ⟨rfl, fun _ ↦ rfl, rfl⟩
  rw [sysConnect, wp_bind, wp_setEndpoint_local]
  dsimp only
  rw [wp_bind, wp_get, wp_bind, wp_onSnd, Socket.sendto]
  dsimp only
  cases haddr : addrResolution addr with
  | ip ip port =>
    dsimp only
    rw [if_neg (by rw [h ip port haddr]; decide)]
    exact ⟨rfl, hrefuses⟩
  | unknown => exact ⟨rfl, hrefuses⟩

/-- The socket with the remote endpoint that memory names, if it names one. -/
def Socket.withRemote (self : Socket) (addr : IpAddr) : Socket :=
  match addrResolution addr with
  | .ip ip port => { self with remoteEndpoint := some (.ip ip port) }
  | .unknown => self

theorem wp_setEndpoint_withRemote {Q : Option Port → SockState → Prop} {addr : IpAddr} :
    wp (setEndpoint k addr true) Q E s ↔ Q
      (match addrResolution addr with
        | .ip _ port => some port
        | .unknown => none)
      (s.1.set k ((s.1.sockets k).withRemote addr), s.2) := by
  rw [setEndpoint, wp_bind, wp_get, wp_bind, wp_onSnd, Socket.setEndpoint, Socket.withRemote]
  cases addrResolution addr <;> exact Iff.rfl

/-- The state after a call that took `got` from the queue of requests. -/
structure Accepts (s : SockState) (k : ℕ) (port : Port) (user : List UInt8) (hasFd : Bool)
    (r : Except ErrorNo (ℕ × ℕ × List UInt8)) (s' : SockState) : Prop where
  result : r = if hasFd then .ok (s.1.next, ((s.2.queue (port + 100)).take 64).length,
    (s.2.queue (port + 100)).take 64 ++ user.drop ((s.2.queue (port + 100)).take 64).length)
    else .error .EMFILE
  table : s'.1 =
    let sock := (s.1.sockets k).withRemote (.ofBytes ((s.2.queue (port + 100)).take 64 ++
      user.drop ((s.2.queue (port + 100)).take 64).length))
    if hasFd then ⟨update (update s.1.sockets k sock) s.1.next
      (update s.1.sockets k sock k).clonew, s.1.next + 1⟩
    else s.1.set k sock
  queue : ∀ p, s'.2.queue p =
    if p = port + 100 then (s.2.queue p).drop 64 else s.2.queue p
  ephemeral : s'.2.ephemeralPort = s.2.ephemeralPort

/-- A socket without a port of this machine has nothing to accept. -/
theorem wp_sysAccept4_none {user : List UInt8} {hasFd : Bool}
    (h : ∀ ip port, (s.1.sockets k).localEndpoint = some (.ip ip port) →
      Socket.isLoopback ip = false) :
    wp (sysAccept4 checks k user hasFd) (fun r s' ↦ r = .error .EAGAIN ∧ s' = s) E s := by
  rw [sysAccept4, wp_bind, wp_get, wp_bind, wp_onSnd, Socket.recvfrom]
  dsimp only
  cases hlocal : (s.1.sockets k).localEndpoint with
  | none => exact ⟨rfl, rfl⟩
  | some endpoint =>
    cases endpoint with
    | unknown => exact ⟨rfl, rfl⟩
    | ip ip port =>
      dsimp only [Option.getD_some]
      rw [if_neg (by rw [h ip port hlocal]; decide)]
      exact ⟨rfl, rfl⟩

section accept

variable {user : List UInt8} {hasFd : Bool} {ip : BitVec 32} {port : Port}

/-- What is read for an `accept` is read at the port of requests. -/
theorem wp_recvRequest {self : Socket} (hlocal : self.localEndpoint = some (.ip ip port))
    (hip : Socket.isLoopback ip = true) {buf : List UInt8} {net : Net}
    {Q : Option ℕ × List UInt8 → Net → Prop}
    (h : Q (Net.readFromPort (port + 100) buf net).1 (Net.readFromPort (port + 100) buf net).2) :
    wp (self.recvfrom checks buf 100 none) Q anyPanic net := by
  rw [Socket.recvfrom, hlocal]
  dsimp only [Option.getD_some]
  rw [if_pos hip, if_pos rfl, wp_bind]
  refine wp_imp (wp_addPort port net) fun target net' ht ↦ ?_
  obtain ⟨rfl, rfl⟩ := ht
  exact h

/-- Without requests there is nothing to accept. -/
theorem wp_sysAccept4_empty (hlocal : (s.1.sockets k).localEndpoint = some (.ip ip port))
    (hip : Socket.isLoopback ip = true) (hempty : s.2.queue (port + 100) = []) :
    wp (sysAccept4 checks k user hasFd) (fun r s' ↦ r = .error .EAGAIN ∧ s' = s) anyPanic s := by
  rw [sysAccept4, wp_bind, wp_get, wp_bind, wp_onSnd]
  refine wp_recvRequest hlocal hip ?_
  rw [Net.readFromPort_nil hempty]
  exact ⟨rfl, rfl⟩

/-- A socket takes what waits at its port of requests, at most 64 bytes. -/
theorem wp_sysAccept4 (hlocal : (s.1.sockets k).localEndpoint = some (.ip ip port))
    (hip : Socket.isLoopback ip = true) (hne : s.2.queue (port + 100) ≠ []) :
    wp (sysAccept4 checks k user hasFd) (Accepts s k port user hasFd) anyPanic s := by
  rw [sysAccept4, wp_bind, wp_get, wp_bind, wp_onSnd]
  refine wp_recvRequest hlocal hip ?_
  have hread := Net.readFromPort_spec (List.replicate 64 0) hne
  have heph := readFromPort_ephemeralPort s.2 (port + 100) (List.replicate 64 0)
  generalize Net.readFromPort (port + 100) (List.replicate 64 0) s.2 = res at hread heph ⊢
  obtain ⟨⟨r, buffer⟩, net'⟩ := res
  obtain ⟨hr, hqueue⟩ := hread
  dsimp only at hr hqueue heph ⊢
  obtain ⟨rfl, rfl⟩ := Prod.mk.inj hr
  set got := (s.2.queue (port + 100)).take 64 with hgot
  -- the request is what was read, of 64 bytes at most
  have hlen : min (s.2.queue (port + 100)).length (List.replicate 64 (0 : UInt8)).length =
      got.length := by
    rw [hgot, List.length_take, List.length_replicate, Nat.min_comm]
  have hqueue' : ∀ p, net'.queue p =
      if p = port + 100 then (s.2.queue p).drop 64 else s.2.queue p := by
    intro p
    rw [hqueue, List.length_replicate]
    split_ifs with hp
    · rw [hp]
    · rfl
  rw [List.length_replicate] at hlen ⊢
  dsimp only
  rw [hlen, List.take_left' rfl, wp_bind, wp_setEndpoint_withRemote]
  cases hasFd <;> exact ⟨rfl, rfl, hqueue', heph⟩

end accept

/-- The ports of a socket that has both endpoints, the local one first. -/
def Socket.ports (self : Socket) : Option (Port × Port) :=
  match self.localEndpoint, self.remoteEndpoint with
  | some (.ip _ lport), some (.ip _ rport) => some (lport, rport)
  | _, _ => none

theorem Socket.ports_eq_some {self : Socket} {lport rport : Port} :
    self.ports = some (lport, rport) ↔ ∃ lip rip, self.localEndpoint = some (.ip lip lport) ∧
      self.remoteEndpoint = some (.ip rip rport) := by
  rw [ports]
  constructor
  · intro h
    split at h
    · rename_i lip _ rip _ hlocal hremote
      obtain ⟨rfl, rfl⟩ := Prod.mk.inj (Option.some.inj h)
      exact ⟨lip, rip, hlocal, hremote⟩
    · cases h
  · rintro ⟨lip, rip, hlocal, hremote⟩
    rw [hlocal, hremote]

/-- The state after data was sent to a port. -/
structure Sends (s : SockState) (port : Port) (x : List UInt8) (s' : SockState) : Prop where
  table : s'.1 = s.1
  queue : s'.2.queue port = s.2.queue port ++ x
  other : ∀ p, p ≠ port → s'.2.queue p = s.2.queue p

/-- The state after data was received at a port. -/
structure Fetches (s : SockState) (port : Port) (x : List UInt8) (s' : SockState) : Prop where
  table : s'.1 = s.1
  queue : s.2.queue port = x ++ s'.2.queue port
  other : ∀ p, p ≠ port → s'.2.queue p = s.2.queue p

section data

variable {data buf : List UInt8} {flags : BitVec 32} {lport rport : Port}

/-- Data goes to the port of the remote endpoint. -/
theorem wp_sysSendto (hports : (s.1.sockets k).ports = some (lport, rport)) (hrport : rport ≠ 0)
    (hflags : flags ≠ 100) :
    wp (sysSendto checks k data flags none) (fun r s' ↦ Sends s rport
      (match r with
        | .ok n => data.take n
        | .error _ => []) s') E s := by
  obtain ⟨lip, rip, -, hremote⟩ := Socket.ports_eq_some.mp hports
  have hnone : Sends s rport [] s := ⟨rfl, (List.append_nil _).symm, fun _ _ ↦ rfl⟩
  rw [sysSendto, wp_bind, wp_get, wp_bind, wp_onSnd, Socket.sendto, hremote]
  dsimp only [Option.getD_some]
  split_ifs with hip
  · rw [wp_bind, Socket.sendPort, if_neg hflags, if_neg hrport, wp_pure, wp_modifyGet]
    obtain ⟨hr, hqueue⟩ := Net.writeToPort_spec s.2 rport data
    rw [hr]
    have hself := hqueue rport
    rw [if_pos rfl] at hself
    have hother : ∀ p, p ≠ rport → (Net.writeToPort rport data s.2).2.queue p = s.2.queue p :=
      fun p hp ↦ by rw [hqueue, if_neg hp]
    split_ifs with hroom
    · rw [hroom, List.take_zero] at hself
      exact ⟨rfl, hself, hother⟩
    · exact ⟨rfl, hself, hother⟩
  · exact hnone

/-- Data comes from the port of the local endpoint. -/
theorem wp_sysRecvfrom (hports : (s.1.sockets k).ports = some (lport, rport)) :
    wp (sysRecvfrom checks k buf) (fun r s' ↦ Fetches s lport
      (match r with
        | .ok (n, buf) => buf.take n
        | .error _ => []) s') E s := by
  obtain ⟨lip, rip, hlocal, -⟩ := Socket.ports_eq_some.mp hports
  have hnone : Fetches s lport [] s := ⟨rfl, rfl, fun _ _ ↦ rfl⟩
  rw [sysRecvfrom, wp_bind, wp_get, wp_bind, wp_onSnd, Socket.recvfrom, hlocal]
  dsimp only [Option.getD_some]
  by_cases hip : Socket.isLoopback lip = true
  · rw [if_pos hip, if_neg (by decide), wp_bind, wp_pure, wp_modifyGet]
    by_cases hempty : s.2.queue lport = []
    · rw [Net.readFromPort_nil hempty]
      exact hnone
    · obtain ⟨hr, hqueue⟩ := Net.readFromPort_spec buf hempty
      rw [hr]
      have hself := hqueue lport
      rw [if_pos rfl] at hself
      -- what is returned was at the front of the queue
      have htaken : ((s.2.queue lport).take buf.length ++ buf.drop (s.2.queue lport).length).take
          (min (s.2.queue lport).length buf.length) = (s.2.queue lport).take buf.length :=
        List.take_left' (by rw [List.length_take, Nat.min_comm])
      refine ⟨rfl, ?_, fun p hp ↦ ?_⟩
      · dsimp only
        rw [htaken, hself, List.take_append_drop]
      · dsimp only
        rw [hqueue, if_neg hp]
  · rw [if_neg hip]
    exact hnone

end data

end wp

end Maturin
