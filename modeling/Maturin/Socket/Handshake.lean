import Maturin.Lib.Throughout
import Maturin.Socket.Calls

/-!
# Requests for connections

The sockets that ask a port for a connection, and the ones that accept at it. A request is eight
bytes in a queue of bytes, and `accept` takes 64 at once: as long as no more than one request waits,
it takes this one. Where two wait it takes both, makes one socket for the first of them, and tells
its caller of an address of 16 bytes. A request that is taken by a process without a free descriptor
is lost.

The address 0 stands for every address of the machine, so that the endpoint that the one socket
has as 0 and its port is the one that the other has as 127.0.0.1 and this port.
-/

open Exec Function

namespace Maturin

/-- The sockets, and what happened at a port. -/
structure Handshake where
  state : SockState
  /-- The local endpoints of the sockets whose `connect` succeeded. -/
  connected : List (Option AddrType)
  /-- The remote endpoints of the sockets that `accept` returned, and what it wrote for each. -/
  accepted : List (Option AddrType × List UInt8)

namespace Handshake

inductive Event
  | connect (k : ℕ) (addr : IpAddr)
  | accept (k : ℕ) (user : List UInt8) (hasFd : Bool)

variable {checks : Bool} {port : Port} {h : Handshake} {e : Event}

/-- `none` is a panic. -/
def step (checks : Bool) (h : Handshake) : Event → Option Handshake
  | .connect k addr =>
    match (sysConnect checks k addr).run h.state with
    | .ok (.ok _) s =>
      some { h with state := s, connected := h.connected ++ [(s.1.sockets k).localEndpoint] }
    | .ok (.error _) s => some { h with state := s }
    | .error _ _ => none
  | .accept k user hasFd =>
    match (sysAccept4 checks k user hasFd).run h.state with
    | .ok (.ok (new, len, user)) s =>
      some { h with
        state := s
        accepted := h.accepted ++ [((s.1.sockets new).remoteEndpoint, user.take len)] }
    | .ok (.error _) s => some { h with state := s }
    | .error _ _ => none

def next (checks : Bool) (h : Handshake) (e : Event) : Handshake := (h.step checks e).getD h

/-- The call is for the port, on this machine. -/
def At (port : Port) (h : Handshake) : Event → Prop
  | .connect _ addr => ∃ ip, addrResolution addr = .ip ip port ∧ Socket.isLoopback ip = true
  | .accept k _ _ => ∃ ip, (h.state.1.sockets k).localEndpoint = some (.ip ip port) ∧
      Socket.isLoopback ip = true

/-- The call is for the port and returns. -/
def Valid (checks : Bool) (port : Port) (h : Handshake) (e : Event) : Prop :=
  h.At port e ∧ (h.step checks e).isSome

/-- The endpoint of a socket that connected. -/
def localOf (lport : Port) : Option AddrType := some (.ip 0 lport)

/-- What an `accept` of its request returns and writes. -/
def taken (lport : Port) : Option AddrType × List UInt8 :=
  (some (.ip LOCAL_LOOPBACK_ADDR lport), request lport)

/-- The connections are the accepted ones, in the order in which they were asked for, and those
whose requests wait. -/
def InOrder (port : Port) (h : Handshake) : Prop :=
  ∃ past pending : List Port, h.connected = (past ++ pending).map localOf ∧
    h.accepted = past.map taken ∧ h.state.2.queue (port + 100) = pending.flatMap request

/-- An `accept` finds at most one request, and has a descriptor for it. -/
def OneByOne (port : Port) (h : Handshake) : Event → Prop
  | .connect _ _ => True
  | .accept _ _ hasFd => (h.state.2.queue (port + 100)).length ≤ 8 ∧
      (h.state.2.queue (port + 100) ≠ [] → hasFd = true)

/-! ## One call -/

theorem length_flatMap_request (pending : List Port) :
    (pending.flatMap request).length = 8 * pending.length := by
  induction pending with
  | nil => rfl
  | cons p pending ih =>
    rw [List.flatMap_cons, List.length_append, ih, length_request, List.length_cons]
    omega

/-- A queue of whole requests has room for a whole one, or is full. -/
theorem room_request {net : Net} {pending : List Port} {target lport : Port}
    (hqueue : net.queue target = pending.flatMap request)
    (hroom : net.room target (request lport) ≠ 0) : net.room target (request lport) = 8 := by
  have hlen := length_flatMap_request pending
  rw [← hqueue] at hlen
  rw [Net.room, length_request, hlen, SOCKET_BUFFER_SIZE_LIMIT] at hroom ⊢
  omega

/-- A socket that asks for a connection waits behind the others. -/
theorem inOrder_connect (hin : h.InOrder port) (hport : port ≠ 0) {k : ℕ} {addr : IpAddr}
    (hvalid : Valid checks port h (.connect k addr)) :
    (h.next checks (.connect k addr)).InOrder port := by
  obtain ⟨⟨ip, haddr, hip⟩, hsome⟩ := hvalid
  obtain ⟨h', hstep⟩ := Option.isSome_iff_exists.mp hsome
  rw [next, hstep, Option.getD_some]
  obtain ⟨past, pending, hconnected, haccepted, hqueue⟩ := hin
  rw [step] at hstep
  cases hrun : (sysConnect checks k addr).run h.state with
  | error e s =>
    rw [hrun] at hstep
    cases hstep
  | ok r s =>
    rw [hrun] at hstep
    have hr := wp_ok (wp_sysConnect haddr hip hport) hrun
    split_ifs at hr with hroom
    · obtain ⟨rfl, hrefuses⟩ := hr
      obtain rfl := Option.some.inj hstep
      exact ⟨past, pending, hconnected, haccepted, (hrefuses.queue _).trans hqueue⟩
    · obtain ⟨rfl, hconnects⟩ := hr
      obtain rfl := Option.some.inj hstep
      -- the new port is behind those that wait
      refine ⟨past, pending ++ [h.state.2.getEphemeralPort.1], ?_, haccepted, ?_⟩
      · change h.connected ++ [(s.1.sockets k).localEndpoint] = _
        rw [hconnects.table, SocketTable.set, hconnected, ← List.append_assoc, List.map_append,
          List.map_append, List.map_append]
        dsimp only
        rw [update_self]
        rfl
      · change s.2.queue (port + 100) = _
        rw [hconnects.queue, if_pos rfl, room_request hqueue hroom, hqueue, List.flatMap_append]
        rfl

/-- The lists that the property speaks of are determined. -/
theorem InOrder.length (hin : h.InOrder port) :
    (h.state.2.queue (port + 100)).length + 8 * h.accepted.length = 8 * h.connected.length := by
  obtain ⟨past, pending, hconnected, haccepted, hqueue⟩ := hin
  rw [hconnected, haccepted, hqueue, length_flatMap_request, List.length_map, List.length_map,
    List.length_append]
  omega

/-- An `accept` writes one address. -/
theorem InOrder.length_written (hin : h.InOrder port) {a : Option AddrType × List UInt8}
    (ha : a ∈ h.accepted) : a.2.length = 8 := by
  obtain ⟨past, pending, -, haccepted, -⟩ := hin
  rw [haccepted] at ha
  obtain ⟨p, -, rfl⟩ := List.mem_map.mp ha
  rfl

/-- The socket that is made of a whole request has the endpoint that the request names. -/
theorem remoteEndpoint_request (sock : Socket) (lport : Port) (rest : List UInt8) :
    (sock.withRemote (.ofBytes (request lport ++ rest))).clonew.remoteEndpoint =
      some (.ip LOCAL_LOOPBACK_ADDR lport) := by
  rw [request, IpAddr.ofBytes_toBytes]
  rfl

section accept

variable {k : ℕ} {user : List UInt8} {hasFd : Bool} {s : SockState}
  {r : Except ErrorNo (ℕ × ℕ × List UInt8)}

/-- The request that is taken without a descriptor is lost. -/
theorem not_inOrder_of_lost (hin : h.InOrder port)
    (hne : h.state.2.queue (port + 100) ≠ [])
    (haccepts : Accepts h.state k port user false r s) :
    ¬InOrder port { h with state := s } := by
  intro hin'
  have hlen := hin.length
  have hlen' := hin'.length
  dsimp only at hlen'
  rw [haccepts.queue, if_pos rfl, List.length_drop] at hlen'
  have hpos := List.length_pos_iff.mpr hne
  omega

/-- An `accept` is for the next connection if and only if no more than one request waits. -/
theorem inOrder_accepts_iff (hin : h.InOrder port) (hne : h.state.2.queue (port + 100) ≠ [])
    (haccepts : Accepts h.state k port user true r s) {new len : ℕ} {mem : List UInt8}
    (hr : r = .ok (new, len, mem)) :
    InOrder port { h with
      state := s
      accepted := h.accepted ++ [((s.1.sockets new).remoteEndpoint, mem.take len)] } ↔
      (h.state.2.queue (port + 100)).length ≤ 8 := by
  have hresult := haccepts.result.symm.trans hr
  rw [if_pos rfl] at hresult
  obtain ⟨hnew, hpair⟩ := Prod.mk.inj (Except.ok.inj hresult)
  obtain ⟨hlen, hmem⟩ := Prod.mk.inj hpair
  have htaken : mem.take len = (h.state.2.queue (port + 100)).take 64 := by
    rw [← hlen, ← hmem, List.take_left' rfl]
  rw [htaken]
  constructor
  · intro hin'
    have height := hin'.length_written (List.mem_append_right _ (List.mem_singleton_self _))
    rw [List.length_take] at height
    omega
  · intro hle
    obtain ⟨past, pending, hconnected, haccepted, hqueue⟩ := hin
    -- the only request that waits
    have hpending : ∃ p, pending = [p] := by
      have hlength := length_flatMap_request pending
      rw [← hqueue] at hlength
      have hpos := List.length_pos_iff.mpr hne
      exact List.length_eq_one_iff.mp (by omega)
    obtain ⟨p, rfl⟩ := hpending
    have hrequest : h.state.2.queue (port + 100) = request p := by
      rw [hqueue, List.flatMap_cons, List.flatMap_nil, List.append_nil]
    have hwhole : (request p).take 64 = request p :=
      List.take_of_length_le (by rw [length_request]; decide)
    refine ⟨past ++ [p], [], ?_, ?_, ?_⟩
    · rw [List.append_nil]
      exact hconnected
    · change h.accepted ++ _ = _
      rw [haccepted, List.map_append, haccepts.table, if_pos rfl, ← hnew, hrequest, hwhole]
      dsimp only
      rw [update_self, update_self, remoteEndpoint_request]
      rfl
    · change s.2.queue (port + 100) = _
      rw [haccepts.queue, if_pos rfl, hrequest]
      rfl

/-- A call of `accept` keeps the order if and only if it finds one request at most, and has a
descriptor for it. -/
theorem inOrder_accept_iff (hin : h.InOrder port)
    (hvalid : Valid checks port h (.accept k user hasFd)) :
    (h.next checks (.accept k user hasFd)).InOrder port ↔
      h.OneByOne port (.accept k user hasFd) := by
  obtain ⟨⟨ip, hlocal, hip⟩, hsome⟩ := hvalid
  obtain ⟨h', hstep⟩ := Option.isSome_iff_exists.mp hsome
  rw [next, hstep, Option.getD_some]
  rw [step] at hstep
  cases hrun : (sysAccept4 checks k user hasFd).run h.state with
  | error e s =>
    rw [hrun] at hstep
    cases hstep
  | ok r s =>
    rw [hrun] at hstep
    by_cases hempty : h.state.2.queue (port + 100) = []
    · obtain ⟨rfl, rfl⟩ := wp_ok (wp_sysAccept4_empty hlocal hip hempty) hrun
      obtain rfl := Option.some.inj hstep
      refine iff_of_true hin ⟨?_, fun hne ↦ absurd hempty hne⟩
      rw [hempty]
      exact Nat.zero_le _
    · have haccepts := wp_ok (wp_sysAccept4 hlocal hip hempty) hrun
      cases hasFd with
      | false =>
        obtain rfl : r = .error .EMFILE := haccepts.result
        obtain rfl := Option.some.inj hstep
        -- the request was read, and no socket was made of it
        refine iff_of_false (not_inOrder_of_lost hin hempty haccepts) fun hone ↦ ?_
        exact absurd (hone.2 hempty) Bool.false_ne_true
      | true =>
        cases hr : r with
        | error e =>
          have hresult := haccepts.result.symm.trans hr
          rw [if_pos rfl] at hresult
          cases hresult
        | ok result =>
          obtain ⟨new, len, mem⟩ := result
          subst hr
          obtain rfl := Option.some.inj hstep
          rw [inOrder_accepts_iff hin hempty haccepts rfl]
          exact ⟨fun hle ↦ ⟨hle, fun _ ↦ rfl⟩, fun hone ↦ hone.1⟩

end accept

/-- The sockets before any of them asked for a connection. -/
def start (state : SockState) : Handshake := ⟨state, [], []⟩

end Handshake

/-- Every connection to a port is accepted once, in order, in every state of a run of `connect` and
`accept` if and only if each `accept` finds one request at most, and has a descriptor for it. -/
theorem inOrder_iff_oneByOne {checks : Bool} {port : Port} (hport : port ≠ 0) {h : Handshake}
    (hin : h.InOrder port) {events : List Handshake.Event}
    (hvalid : Throughout (Handshake.next checks) (Handshake.Valid checks port) h events) :
    Throughout (Handshake.next checks) (fun h e ↦ (h.next checks e).InOrder port) h events ↔
      Throughout (Handshake.next checks) (Handshake.OneByOne port) h events := by
  have hstep : ∀ h e, Handshake.InOrder port h → Handshake.Valid checks port h e →
      ((h.next checks e).InOrder port ↔ h.OneByOne port e) := by
    intro h e hin hvalid
    cases e with
    | connect k addr => exact iff_of_true (Handshake.inOrder_connect hin hport hvalid) trivial
    | accept k user hasFd => exact Handshake.inOrder_accept_iff hin hvalid
  exact Throughout.iff hvalid hin hstep fun h e hin hvalid hone ↦ (hstep h e hin hvalid).mpr hone

theorem inOrder_iff_oneByOne_two :
    Throughout (Handshake.next true) (fun h e ↦ (h.next true e).InOrder 7) (.start .listening)
      [.connect 0 ⟨2, 7, 0⟩, .accept 2 [] true, .connect 1 ⟨2, 7, 0⟩, .accept 2 [] true] := by
  refine (inOrder_iff_oneByOne (by decide) ⟨[], [], rfl, rfl, rfl⟩ ?_).mpr ?_
  · exact ⟨⟨⟨0, rfl, rfl⟩, rfl⟩, ⟨⟨0, rfl, rfl⟩, rfl⟩, ⟨⟨0, rfl, rfl⟩, rfl⟩, ⟨⟨0, rfl, rfl⟩, rfl⟩,
      trivial⟩
  · exact ⟨trivial, ⟨by decide, fun _ ↦ rfl⟩, trivial, ⟨by decide, fun _ ↦ rfl⟩, trivial⟩

/-- An `accept` after two connections is told of both. -/
theorem not_inOrder :
    Throughout (Handshake.next true) (Handshake.Valid true 7) (.start .listening)
      [.connect 0 ⟨2, 7, 0⟩, .connect 1 ⟨2, 7, 0⟩, .accept 2 [] true] ∧
    ¬Throughout (Handshake.next true) (fun h e ↦ (h.next true e).InOrder 7) (.start .listening)
      [.connect 0 ⟨2, 7, 0⟩, .connect 1 ⟨2, 7, 0⟩, .accept 2 [] true] := by
  constructor
  · exact ⟨⟨⟨0, rfl, rfl⟩, rfl⟩, ⟨⟨0, rfl, rfl⟩, rfl⟩, ⟨⟨0, rfl, rfl⟩, rfl⟩, trivial⟩
  · rintro ⟨-, -, hin, -⟩
    have hlen := hin.length_written (List.mem_singleton_self _)
    revert hlen
    decide

end Maturin
