import Maturin.Lib.Streams
import Maturin.Lib.Throughout
import Maturin.Socket.Calls

/-!
# Connections

What is received on one end of a connection is to be what was sent on the other. But data is sent to
a port, and whoever reads at the port gets it: an accepted socket has the port of the one that
listens, so that all the sockets that were accepted there read from one queue, and the requests for
connections are data at another port.

## When connections are apart

Data may be sent to a port at which only the other end reads, and nothing may wait at the two ports
of a new connection. The requests may not be sent to a port of a connection, nor read there.
-/

open Exec Function

namespace Maturin

/-- The socket that connected, the one that was accepted, and the ports at which they read. -/
structure Connection where
  client : ℕ
  server : Option ℕ
  lport : Port
  port : Port

namespace Connection

/-- Who sends in a direction; `true` is the one to the server. -/
def sender (c : Connection) : Bool → Option ℕ
  | true => some c.client
  | false => c.server

/-- The port to which is sent in a direction. -/
def target (c : Connection) : Bool → Port
  | true => c.port
  | false => c.lport

end Connection

/-- The sockets, and what happened to them. -/
structure Connections where
  state : SockState
  /-- Those from `count` on have not been made. -/
  conns : ℕ → Connection
  count : ℕ
  /-- What was sent on each socket. -/
  sent : ℕ → List UInt8
  /-- What was received on each socket. -/
  received : ℕ → List UInt8
  /-- What was written to ask each port for connections. -/
  asked : Port → List UInt8
  /-- The local endpoints of the sockets that `accept` returned, and what it took for a request. -/
  taken : List (Option AddrType × List UInt8)

namespace Connections

inductive Event
  | connect (k : ℕ) (addr : IpAddr)
  | accept (k : ℕ) (user : List UInt8) (hasFd : Bool)
  | send (k : ℕ) (data : List UInt8) (flags : BitVec 32) (dest : Option IpAddr)
  | recv (k : ℕ) (buf : List UInt8)

variable {checks : Bool} {S : Connections} {s : SockState} {k new : ℕ} {lport port : Port}

/-- A connection is made. -/
def add (S : Connections) (c : Connection) : Connections :=
  { S with conns := update S.conns S.count c, count := S.count + 1 }

/-- The socket `k` asked for a connection. -/
def ask (S : Connections) (k : ℕ) (s : SockState) : Connections :=
  match (s.1.sockets k).ports with
  | some (lport, port) =>
    add { S with
      state := s
      asked := update S.asked port
        (S.asked port ++ (request lport).take (S.state.2.room (port + 100) (request lport))) }
      ⟨k, none, lport, port⟩
  | none => { S with state := s }

/-- A connection gets its server. -/
def serve (S : Connections) (i new : ℕ) : Connections :=
  { S with conns := update S.conns i { S.conns i with server := some new } }

/-- The new socket is the server of the first connection between its ports that has none. -/
def establish (S : Connections) (new : ℕ) : Connections :=
  match (S.state.1.sockets new).ports with
  | some (port, lport) =>
    match (List.range S.count).find? fun i ↦
      (S.conns i).server = none ∧ (S.conns i).port = port ∧ (S.conns i).lport = lport with
    | some i => S.serve i new
    | none => S
  | none => S

/-- `none` is a panic. -/
def step (checks : Bool) (S : Connections) : Event → Option Connections
  | .connect k addr =>
    match (sysConnect checks k addr).run S.state with
    | .ok (.ok _) s => some (S.ask k s)
    | .ok (.error _) s => some { S with state := s }
    | .error _ _ => none
  | .accept k user hasFd =>
    match (sysAccept4 checks k user hasFd).run S.state with
    | .ok (.ok (new, len, user)) s =>
      some (establish { S with
        state := s
        taken := S.taken ++ [((s.1.sockets new).localEndpoint, user.take len)] } new)
    | .ok (.error _) s => some { S with state := s }
    | .error _ _ => none
  | .send k data flags dest =>
    match (sysSendto checks k data flags dest).run S.state with
    | .ok (.ok n) s =>
      some { S with state := s, sent := update S.sent k (S.sent k ++ data.take n) }
    | .ok (.error _) s => some { S with state := s }
    | .error _ _ => none
  | .recv k buf =>
    match (sysRecvfrom checks k buf).run S.state with
    | .ok (.ok (n, buf)) s =>
      some { S with state := s, received := update S.received k (S.received k ++ buf.take n) }
    | .ok (.error _) s => some { S with state := s }
    | .error _ _ => none

def next (checks : Bool) (S : Connections) (e : Event) : Connections := (S.step checks e).getD S

/-- The directions of the connections. -/
def live (S : Connections) : List (ℕ × Bool) := (List.range S.count).product [true, false]

def sender (S : Connections) (d : ℕ × Bool) : Option ℕ := (S.conns d.1).sender d.2

/-- The other direction of the connection. -/
def opposite (d : ℕ × Bool) : ℕ × Bool := (d.1, !d.2)

def receiver (S : Connections) (d : ℕ × Bool) : Option ℕ := S.sender (opposite d)

def target (S : Connections) (d : ℕ × Bool) : Port := (S.conns d.1).target d.2

/-- Is the socket an end of a connection? -/
def IsEnd (S : Connections) (k : ℕ) : Prop := ∃ d ∈ S.live, S.sender d = some k

instance : Decidable (S.IsEnd k) := inferInstanceAs (Decidable (∃ d ∈ S.live, S.sender d = some k))

/-- What is recorded for a socket, if there is one. -/
def record (log : ℕ → List UInt8) : Option ℕ → List UInt8
  | some k => log k
  | none => []

/-- The call is for a socket that there is, data is for a connection, and the call returns. -/
def Valid (checks : Bool) (S : Connections) (e : Event) : Prop :=
  (match e with
    | .connect k _ => k < S.state.1.next
    | .accept _ _ _ => True
    | .send k _ _ _ => S.IsEnd k
    | .recv k _ => S.IsEnd k) ∧ (S.step checks e).isSome

/-- What was received is the front of what was sent on the other end, and what was taken for a
request is a part of the requests. -/
structure Isolated (S : Connections) : Prop where
  received : ∀ d ∈ S.live, record S.received (S.receiver d) <+: record S.sent (S.sender d)
  taken : ∀ a ∈ S.taken, ∀ ip port, a.1 = some (.ip ip port) → a.2 <:+: S.asked port

/-- No end of a connection waits for data at the port. -/
def Unused (S : Connections) (port : Port) : Prop := ∀ d ∈ S.live, S.target d ≠ port

instance : Decidable (S.Unused port) :=
  inferInstanceAs (Decidable (∀ d ∈ S.live, S.target d ≠ port))

/-- The call does not mix data with that of other connections, or with requests. -/
def Apart (S : Connections) : Event → Prop
  | .connect k addr => ¬S.IsEnd k ∧
    match addrResolution addr with
    | .ip ip port => Socket.isLoopback ip = true → port ≠ 0 ∧ S.Unused (port + 100) ∧
        S.state.2.getEphemeralPort.1 ≠ port + 100 ∧ S.state.2.queue port = [] ∧
        S.state.2.queue S.state.2.getEphemeralPort.1 = []
    | .unknown => True
  | .accept k _ _ => ¬S.IsEnd k ∧
    match (S.state.1.sockets k).localEndpoint with
    | some (.ip _ port) => S.Unused (port + 100)
    | _ => True
  | .send k _ flags dest => flags ≠ 100 ∧ dest = none ∧
    ∀ d ∈ S.live, S.sender d = some k → ∀ d' ∈ S.live, S.target d' = S.target d → d' = d
  | .recv _ _ => True

/-! ## The invariant -/

theorem mem_live {d : ℕ × Bool} : d ∈ S.live ↔ d.1 < S.count := by
  rw [live, List.pair_mem_product, List.mem_range]
  cases d.2 <;> simp

/-- What connections that are apart keep. -/
structure Sound (S : Connections) : Prop where
  streams : Streams {d | d ∈ S.live} S.target S.state.2.queue
    (fun d ↦ record S.sent (S.sender d)) (fun d ↦ record S.received (S.receiver d))
  requests : ∀ port, S.Unused (port + 100) → S.state.2.queue (port + 100) <:+ S.asked port
  taken : ∀ a ∈ S.taken, ∀ ip port, a.1 = some (.ip ip port) → a.2 <:+: S.asked port
  ports : ∀ d ∈ S.live, ∀ k, S.sender d = some k →
    (S.state.1.sockets k).ports = some (S.target (opposite d), S.target d)
  lt_next : ∀ k, S.IsEnd k → k < S.state.1.next
  ne_zero : ∀ d ∈ S.live, S.target d ≠ 0
  sender_inj : ∀ d ∈ S.live, ∀ d' ∈ S.live, ∀ k, S.sender d = some k → S.sender d' = some k →
    d = d'
  idle : ∀ k, ¬S.IsEnd k → S.sent k = [] ∧ S.received k = []

theorem opposite_opposite (d : ℕ × Bool) : opposite (opposite d) = d := by
  rw [opposite, opposite, Bool.not_not]

theorem opposite_mem_live {d : ℕ × Bool} : opposite d ∈ S.live ↔ d ∈ S.live := by
  rw [mem_live, mem_live, opposite]

theorem Sound.isolated (h : S.Sound) : S.Isolated :=
  ⟨fun _ hd ↦ h.streams.received_prefix hd, h.taken⟩

theorem record_update {log : ℕ → List UInt8} {x : List UInt8} (who : Option ℕ) :
    record (update log k (log k ++ x)) who =
      if who = some k then record log who ++ x else record log who := by
  cases who with
  | none => rfl
  | some j =>
    by_cases hj : j = k
    · rw [hj, if_pos rfl, record, update_self]
      rfl
    · rw [if_neg fun h ↦ hj (Option.some.inj h), record, update_of_ne hj]
      rfl

/-- The sockets and the queues change where no connection is. -/
theorem Sound.changeState (h : S.Sound) {asked : Port → List UInt8}
    (hsockets : ∀ k, S.IsEnd k → s.1.sockets k = S.state.1.sockets k)
    (hnext : S.state.1.next ≤ s.1.next)
    (hqueue : ∀ d ∈ S.live, s.2.queue (S.target d) = S.state.2.queue (S.target d))
    (hrequests : ∀ port, S.Unused (port + 100) → s.2.queue (port + 100) <:+ asked port)
    (hasked : ∀ port, S.asked port <+: asked port) :
    Sound { S with state := s, asked := asked } where
  streams := h.streams.elsewhere hqueue
  requests := hrequests
  taken a ha ip port hport := (h.taken a ha ip port hport).trans (hasked port).isInfix
  ports d hd k hk := by
    change (s.1.sockets k).ports = _
    rw [hsockets k ⟨d, hd, hk⟩]
    exact h.ports d hd k hk
  lt_next k hk := (h.lt_next k hk).trans_le hnext
  ne_zero := h.ne_zero
  sender_inj := h.sender_inj
  idle := h.idle

/-- Data is sent to a port at which only the other end reads. -/
theorem Sound.send (h : S.Sound) {d : ℕ × Bool} (hd : d ∈ S.live) (hk : S.sender d = some k)
    (halone : ∀ d' ∈ S.live, S.target d' = S.target d → d' = d) {x : List UInt8}
    (hsends : Sends S.state (S.target d) x s) :
    Sound { S with state := s, sent := update S.sent k (S.sent k ++ x) } where
  streams := by
    refine h.streams.send halone hsends.queue hsends.other fun d' hd' ↦ ?_
    rw [record_update]
    congr 1
    exact propext ⟨fun hk' ↦ h.sender_inj d' hd' d hd k hk' hk, fun heq ↦ heq ▸ hk⟩
  requests port hport := by
    change s.2.queue (port + 100) <:+ _
    rw [hsends.other _ (hport d hd).symm]
    exact h.requests port hport
  taken := h.taken
  ports := by
    change ∀ d ∈ S.live, ∀ k, S.sender d = some k → (s.1.sockets k).ports = _
    rw [hsends.table]
    exact h.ports
  lt_next := by
    change ∀ k, S.IsEnd k → k < s.1.next
    rw [hsends.table]
    exact h.lt_next
  ne_zero := h.ne_zero
  sender_inj := h.sender_inj
  idle j hj := by
    -- the sender is the end of a connection
    have hjk : j ≠ k := fun heq ↦ hj ⟨d, hd, hk.trans (congrArg some heq.symm)⟩
    change update S.sent k _ j = [] ∧ _
    rw [update_of_ne hjk]
    exact h.idle j hj

/-- Data is received at the own port. -/
theorem Sound.recv (h : S.Sound) {d : ℕ × Bool} (hd : d ∈ S.live) (hk : S.receiver d = some k)
    {x : List UInt8} (hfetches : Fetches S.state (S.target d) x s) :
    Sound { S with state := s, received := update S.received k (S.received k ++ x) } where
  streams := by
    refine h.streams.receive hd hfetches.queue hfetches.other fun d' hd' ↦ ?_
    rw [record_update]
    congr 1
    refine propext ⟨fun hk' ↦ ?_, fun heq ↦ heq ▸ hk⟩
    have heq := h.sender_inj _ (opposite_mem_live.mpr hd') _ (opposite_mem_live.mpr hd) k hk' hk
    rw [← opposite_opposite d', heq, opposite_opposite]
  requests port hport := by
    change s.2.queue (port + 100) <:+ _
    rw [hfetches.other _ (hport d hd).symm]
    exact h.requests port hport
  taken := h.taken
  ports := by
    change ∀ d ∈ S.live, ∀ k, S.sender d = some k → (s.1.sockets k).ports = _
    rw [hfetches.table]
    exact h.ports
  lt_next := by
    change ∀ k, S.IsEnd k → k < s.1.next
    rw [hfetches.table]
    exact h.lt_next
  ne_zero := h.ne_zero
  sender_inj := h.sender_inj
  idle j hj := by
    have hjk : j ≠ k := fun heq ↦
      hj ⟨opposite d, opposite_mem_live.mpr hd, hk.trans (congrArg some heq.symm)⟩
    change _ ∧ update S.received k _ j = []
    rw [update_of_ne hjk]
    exact h.idle j hj

section add

variable {c : Connection} {d : ℕ × Bool}

theorem mem_live_add : d ∈ (S.add c).live ↔ d ∈ S.live ∨ d.1 = S.count := by
  rw [mem_live, mem_live]
  exact Nat.lt_succ_iff_lt_or_eq

theorem conns_add_old (hd : d ∈ S.live) : (S.add c).conns d.1 = S.conns d.1 :=
  update_of_ne (mem_live.mp hd).ne _ _

theorem conns_add_new (hd : d.1 = S.count) : (S.add c).conns d.1 = c := by
  rw [hd]
  exact update_self _ _ _

theorem sender_add_old (hd : d ∈ S.live) : (S.add c).sender d = S.sender d :=
  congrArg (Connection.sender · d.2) (conns_add_old hd)

theorem sender_add_new (hd : d.1 = S.count) : (S.add c).sender d = c.sender d.2 :=
  congrArg (Connection.sender · d.2) (conns_add_new hd)

theorem target_add_old (hd : d ∈ S.live) : (S.add c).target d = S.target d :=
  congrArg (Connection.target · d.2) (conns_add_old hd)

theorem target_add_new (hd : d.1 = S.count) : (S.add c).target d = c.target d.2 :=
  congrArg (Connection.target · d.2) (conns_add_new hd)

end add

/-- The connection that a socket asked for begins with nothing sent and nothing waiting. -/
theorem Sound.add (h : S.Sound) (hk : ¬S.IsEnd k) (hlt : k < S.state.1.next)
    (hports : (S.state.1.sockets k).ports = some (lport, port)) (hlport : lport ≠ 0)
    (hport : port ≠ 0) (hlqueue : S.state.2.queue lport = []) (hqueue : S.state.2.queue port = []) :
    (S.add ⟨k, none, lport, port⟩).Sound := by
  obtain ⟨hsent, hreceived⟩ := h.idle k hk
  -- only the socket `k` sends in the new directions
  have hnew : ∀ {d j}, d.1 = S.count → (S.add ⟨k, none, lport, port⟩).sender d = some j →
      d.2 = true ∧ j = k := by
    intro d j hd hj
    rw [sender_add_new hd] at hj
    cases hb : d.2 with
    | true =>
      rw [hb] at hj
      exact ⟨rfl, (Option.some.inj hj).symm⟩
    | false =>
      rw [hb] at hj
      cases hj
  have hnil : ∀ {log : ℕ → List UInt8} {d : ℕ × Bool}, log k = [] → d.1 = S.count →
      record log ((S.add ⟨k, none, lport, port⟩).sender d) = [] := by
    intro log d hlog hd
    rw [sender_add_new hd]
    cases d.2 with
    | true => exact hlog
    | false => rfl
  have hend : ∀ j, (S.add ⟨k, none, lport, port⟩).IsEnd j → S.IsEnd j ∨ j = k := by
    rintro j ⟨d, hd, hj⟩
    rcases mem_live_add.mp hd with hold | hd
    · rw [sender_add_old hold] at hj
      exact .inl ⟨d, hold, hj⟩
    · exact .inr (hnew hd hj).2
  constructor
  case streams =>
    refine h.streams.more (fun d hd ↦ target_add_old hd)
      (fun d hd ↦ congrArg (record S.sent) (sender_add_old hd))
      (fun d hd ↦ congrArg (record S.received) (sender_add_old (opposite_mem_live.mpr hd)))
      fun d hd hold ↦ ?_
    have hd' := (mem_live_add.mp hd).resolve_left hold
    refine ⟨hnil hsent hd', hnil hreceived (d := opposite d) hd', ?_⟩
    rw [target_add_new hd']
    cases d.2 with
    | true => exact hqueue
    | false => exact hlqueue
  case requests =>
    intro p hp
    refine h.requests p fun d hd ↦ ?_
    rw [← target_add_old hd]
    exact hp d (mem_live_add.mpr (.inl hd))
  case taken => exact h.taken
  case ports =>
    intro d hd j hj
    rcases mem_live_add.mp hd with hold | hcount
    · rw [sender_add_old hold] at hj
      rw [target_add_old hold, target_add_old (opposite_mem_live.mpr hold)]
      exact h.ports d hold j hj
    · obtain ⟨hb, rfl⟩ := hnew hcount hj
      rw [target_add_new hcount, target_add_new (d := opposite d) hcount, opposite, hb]
      exact hports
  case lt_next =>
    intro j hj
    rcases hend j hj with hold | rfl
    · exact h.lt_next j hold
    · exact hlt
  case ne_zero =>
    intro d hd
    rcases mem_live_add.mp hd with hold | hd
    · rw [target_add_old hold]
      exact h.ne_zero d hold
    · rw [target_add_new hd]
      cases d.2 with
      | true => exact hport
      | false => exact hlport
  case sender_inj =>
    intro d hd d' hd' j hj hj'
    rcases mem_live_add.mp hd with hold | hd <;> rcases mem_live_add.mp hd' with hold' | hd'
    · rw [sender_add_old hold] at hj
      rw [sender_add_old hold'] at hj'
      exact h.sender_inj d hold d' hold' j hj hj'
    · obtain ⟨-, rfl⟩ := hnew hd' hj'
      rw [sender_add_old hold] at hj
      exact absurd ⟨d, hold, hj⟩ hk
    · obtain ⟨-, rfl⟩ := hnew hd hj
      rw [sender_add_old hold'] at hj'
      exact absurd ⟨d', hold', hj'⟩ hk
    · exact Prod.ext (hd.trans hd'.symm) ((hnew hd hj).1.trans (hnew hd' hj').1.symm)
  case idle =>
    intro j hj
    refine h.idle j fun ⟨d, hd, hdj⟩ ↦ hj ⟨d, mem_live_add.mpr (.inl hd), ?_⟩
    rw [sender_add_old hd]
    exact hdj

section serve

variable {i : ℕ} {d : ℕ × Bool}

theorem target_serve : (S.serve i new).target d = S.target d := by
  rw [target, target, serve]
  by_cases hd : d.1 = i
  · dsimp only
    rw [hd, update_self]
    cases d.2 <;> rfl
  · dsimp only
    rw [update_of_ne hd]

/-- The direction to the client has a new sender. -/
theorem sender_serve :
    (S.serve i new).sender d = if d = (i, false) then some new else S.sender d := by
  rw [sender, sender, serve]
  dsimp only
  by_cases hd : d.1 = i
  · rw [hd, update_self]
    cases hb : d.2 with
    | true =>
      rw [if_neg fun hd' ↦ by rw [hd'] at hb; cases hb]
      rfl
    | false =>
      rw [if_pos (Prod.ext hd hb)]
      rfl
  · rw [update_of_ne hd, if_neg fun hd' ↦ hd (congrArg Prod.fst hd')]

theorem sender_serve_or {j : ℕ} (h : (S.serve i new).sender d = some j) :
    S.sender d = some j ∨ d = (i, false) ∧ j = new := by
  rw [sender_serve] at h
  split_ifs at h with hd
  · exact .inr ⟨hd, (Option.some.inj h).symm⟩
  · exact .inl h

theorem sender_serve_of {j : ℕ} (hserver : (S.conns i).server = none) (h : S.sender d = some j) :
    (S.serve i new).sender d = some j := by
  rw [sender_serve, if_neg, h]
  rintro rfl
  change (S.conns i).server = _ at h
  rw [hserver] at h
  cases h

/-- For a new socket nothing is recorded. -/
theorem record_serve {log : ℕ → List UInt8} (hserver : (S.conns i).server = none)
    (hlog : log new = []) :
    record log ((S.serve i new).sender d) = record log (S.sender d) := by
  rw [sender_serve]
  split_ifs with hd
  · rw [hd]
    change log new = record log (S.conns i).server
    rw [hlog, hserver]
    rfl
  · rfl

end serve

/-- A new socket becomes the server of a connection between its ports. -/
theorem Sound.serve (h : S.Sound) {i : ℕ} (hserver : (S.conns i).server = none)
    (hports : (S.state.1.sockets new).ports = some ((S.conns i).port, (S.conns i).lport))
    (hlt : new < S.state.1.next) (hnew : ¬S.IsEnd new) : (S.serve i new).Sound := by
  obtain ⟨hsent, hreceived⟩ := h.idle new hnew
  constructor
  case streams =>
    refine h.streams.more (fun d _ ↦ target_serve) (fun d _ ↦ record_serve hserver hsent)
      (fun d _ ↦ record_serve hserver hreceived) fun d hd hold ↦ absurd hd hold
  case requests =>
    intro p hp
    refine h.requests p fun d hd ↦ ?_
    rw [← target_serve]
    exact hp d hd
  case taken => exact h.taken
  case ports =>
    intro d hd j hj
    rw [target_serve, target_serve]
    obtain hold | ⟨rfl, rfl⟩ := sender_serve_or hj
    · exact h.ports d hd j hold
    · exact hports
  case lt_next =>
    rintro j ⟨d, hd, hj⟩
    obtain hold | ⟨-, rfl⟩ := sender_serve_or hj
    · exact h.lt_next j ⟨d, hd, hold⟩
    · exact hlt
  case ne_zero =>
    intro d hd
    rw [target_serve]
    exact h.ne_zero d hd
  case sender_inj =>
    intro d hd d' hd' j hj hj'
    obtain hold | ⟨rfl, rfl⟩ := sender_serve_or hj
    · obtain hold' | ⟨-, rfl⟩ := sender_serve_or hj'
      · exact h.sender_inj d hd d' hd' j hold hold'
      · exact absurd ⟨d, hd, hold⟩ hnew
    · obtain hold' | ⟨rfl, -⟩ := sender_serve_or hj'
      · exact absurd ⟨d', hd', hold'⟩ hnew
      · rfl
  case idle =>
    exact fun j hj ↦ h.idle j fun ⟨d, hd, hdj⟩ ↦ hj ⟨d, hd, sender_serve_of hserver hdj⟩

/-- A new socket becomes the server of a connection that had none, if there is one. -/
theorem Sound.establish (h : S.Sound) (hlt : new < S.state.1.next) (hnew : ¬S.IsEnd new) :
    (S.establish new).Sound := by
  rw [Connections.establish]
  cases hports : (S.state.1.sockets new).ports with
  | none => exact h
  | some ports =>
    obtain ⟨port, lport⟩ := ports
    dsimp only
    cases hfind : (List.range S.count).find? fun i ↦
        (S.conns i).server = none ∧ (S.conns i).port = port ∧ (S.conns i).lport = lport with
    | none => exact h
    | some i =>
      have hfound := List.find?_some hfind
      obtain ⟨hserver, rfl, rfl⟩ := of_decide_eq_true hfound
      exact h.serve hserver hports hlt hnew

/-! ## One call -/

/-- A connection that is refused only changes a socket that is no end of one. -/
theorem Sound.refuse (h : S.Sound) (hk : ¬S.IsEnd k) (hrefuses : Refuses S.state k s) :
    Sound { S with state := s } := by
  refine h.changeState (fun j hj ↦ ?_) ?_ (fun d _ ↦ hrefuses.queue _) (fun port hport ↦ ?_)
    fun port ↦ List.prefix_rfl
  · have hjk : j ≠ k := fun heq ↦ hk (heq ▸ hj)
    rw [hrefuses.table]
    exact update_of_ne hjk _ _
  · rw [hrefuses.table]
    exact le_rfl
  · rw [hrefuses.queue]
    exact h.requests port hport

/-- A request goes to a port that no connection has. -/
theorem Sound.asks (h : S.Sound) (hk : ¬S.IsEnd k) (hlt : k < S.state.1.next) {ip : BitVec 32}
    (hport : port ≠ 0) (hunused : S.Unused (port + 100))
    (hne : S.state.2.getEphemeralPort.1 ≠ port + 100) (hqueue : S.state.2.queue port = [])
    (hlqueue : S.state.2.queue S.state.2.getEphemeralPort.1 = [])
    (hconnects : Connects S.state k ip port s) : (S.ask k s).Sound := by
  set lport := S.state.2.getEphemeralPort.1 with hlport
  have hsock : s.1.sockets k = { S.state.1.sockets k with
      localEndpoint := some (.ip 0 lport), remoteEndpoint := some (.ip ip port) } := by
    rw [hconnects.table]
    exact update_self _ _ _
  have hports : (s.1.sockets k).ports = some (lport, port) := by
    rw [hsock]
    rfl
  have hother : ∀ p, p ≠ port + 100 → s.2.queue p = S.state.2.queue p := by
    intro p hp
    rw [hconnects.queue, if_neg hp]
  -- a request goes to another port than the one of the connection
  have hself : port ≠ port + 100 := by bv_omega
  rw [ask, hports]
  refine Sound.add (h.changeState (fun j hj ↦ ?_) ?_ (fun d hd ↦ hother _ (hunused d hd))
    (fun p hp ↦ ?_) fun p ↦ ?_) hk ?_ hports ?_ hport ?_ ?_
  · have hjk : j ≠ k := fun heq ↦ hk (heq ▸ hj)
    rw [hconnects.table]
    exact update_of_ne hjk _ _
  · rw [hconnects.table]
    exact le_rfl
  · by_cases hpport : p = port
    · obtain ⟨front, hfront⟩ := h.requests port hunused
      rw [hpport, update_self, hconnects.queue, if_pos rfl, ← hfront]
      exact ⟨front, (List.append_assoc _ _ _).symm⟩
    · rw [update_of_ne hpport, hother _ fun heq ↦ hpport ((BitVec.add_left_inj 100).mp heq)]
      exact h.requests p hp
  · by_cases hpport : p = port
    · rw [hpport, update_self]
      exact List.prefix_append _ _
    · rw [update_of_ne hpport]
  · change k < s.1.next
    rw [hconnects.table]
    exact hlt
  · intro hzero
    have hle := S.state.2.le_getEphemeralPort
    rw [← hlport, hzero] at hle
    exact absurd hle (by decide)
  · exact (hother _ hne).trans hlqueue
  · exact (hother _ hself).trans hqueue

theorem Sound.connect (h : S.Sound) {addr : IpAddr} (hvalid : Valid checks S (.connect k addr))
    (hapart : S.Apart (.connect k addr)) : (S.next checks (.connect k addr)).Sound := by
  obtain ⟨hlt, hsome⟩ := hvalid
  obtain ⟨hk, haddr⟩ := hapart
  obtain ⟨S', hstep⟩ := Option.isSome_iff_exists.mp hsome
  rw [next, hstep, Option.getD_some]
  rw [step] at hstep
  cases hrun : (sysConnect checks k addr).run S.state with
  | error e s =>
    rw [hrun] at hstep
    cases hstep
  | ok r s =>
    rw [hrun] at hstep
    by_cases hloop : ∃ ip port, addrResolution addr = .ip ip port ∧ Socket.isLoopback ip = true
    · obtain ⟨ip, port, hres, hip⟩ := hloop
      rw [hres] at haddr
      obtain ⟨hport, hunused, hne, hqueue, hlqueue⟩ := haddr hip
      have hr := wp_ok (wp_sysConnect hres hip hport) hrun
      split_ifs at hr with hroom
      · obtain ⟨rfl, hrefuses⟩ := hr
        obtain rfl := Option.some.inj hstep
        exact h.refuse hk hrefuses
      · obtain ⟨rfl, hconnects⟩ := hr
        obtain rfl := Option.some.inj hstep
        exact h.asks hk hlt hport hunused hne hqueue hlqueue hconnects
    · -- nothing is sent to another machine
      have hother : ∀ ip port, addrResolution addr = .ip ip port →
          Socket.isLoopback ip = false := by
        intro ip port hres
        exact Bool.eq_false_of_not_eq_true fun hip ↦ hloop ⟨ip, port, hres, hip⟩
      obtain ⟨rfl, hrefuses⟩ := wp_ok (E := anyPanic) (wp_sysConnect_other hother) hrun
      obtain rfl := Option.some.inj hstep
      exact h.refuse hk hrefuses

theorem Sound.sends (h : S.Sound) {data : List UInt8} {flags : BitVec 32} {dest : Option IpAddr}
    (hvalid : Valid checks S (.send k data flags dest))
    (hapart : S.Apart (.send k data flags dest)) :
    (S.next checks (.send k data flags dest)).Sound := by
  obtain ⟨⟨d, hd, hk⟩, hsome⟩ := hvalid
  obtain ⟨hflags, rfl, halone⟩ := hapart
  obtain ⟨S', hstep⟩ := Option.isSome_iff_exists.mp hsome
  rw [next, hstep, Option.getD_some]
  rw [step] at hstep
  cases hrun : (sysSendto checks k data flags none).run S.state with
  | error e s =>
    rw [hrun] at hstep
    cases hstep
  | ok r s =>
    rw [hrun] at hstep
    have hsends := wp_ok (E := anyPanic)
      (wp_sysSendto (h.ports d hd k hk) (h.ne_zero d hd) hflags) hrun
    have hsound := h.send hd hk (halone d hd hk) hsends
    cases r with
    | ok n =>
      obtain rfl := Option.some.inj hstep
      exact hsound
    | error e =>
      obtain rfl := Option.some.inj hstep
      dsimp only at hsound
      rw [List.append_nil, update_eq_self] at hsound
      exact hsound

theorem Sound.receives (h : S.Sound) {buf : List UInt8} (hvalid : Valid checks S (.recv k buf)) :
    (S.next checks (.recv k buf)).Sound := by
  obtain ⟨⟨d, hd, hk⟩, hsome⟩ := hvalid
  obtain ⟨S', hstep⟩ := Option.isSome_iff_exists.mp hsome
  rw [next, hstep, Option.getD_some]
  rw [step] at hstep
  have hk' : S.receiver (opposite d) = some k := by
    rw [receiver, opposite_opposite]
    exact hk
  cases hrun : (sysRecvfrom checks k buf).run S.state with
  | error e s =>
    rw [hrun] at hstep
    cases hstep
  | ok r s =>
    rw [hrun] at hstep
    have hfetches := wp_ok (E := anyPanic) (wp_sysRecvfrom (h.ports d hd k hk)) hrun
    have hsound := h.recv (opposite_mem_live.mpr hd) hk' hfetches
    cases r with
    | ok r =>
      obtain ⟨n, buf⟩ := r
      obtain rfl := Option.some.inj hstep
      exact hsound
    | error e =>
      obtain rfl := Option.some.inj hstep
      dsimp only at hsound
      rw [List.append_nil, update_eq_self] at hsound
      exact hsound

section accept

variable {ip : BitVec 32} {user : List UInt8}

theorem withRemote_localEndpoint (sock : Socket) (addr : IpAddr) :
    (sock.withRemote addr).localEndpoint = sock.localEndpoint := by
  rw [Socket.withRemote]
  cases addrResolution addr <;> rfl

/-- A request is taken from a port that no connection has. -/
theorem Sound.takes (h : S.Sound) (hunused : S.Unused (port + 100)) {hasFd : Bool}
    {r : Except ErrorNo (ℕ × ℕ × List UInt8)}
    (haccepts : Accepts S.state k port user hasFd r s)
    (hsockets : ∀ k, S.IsEnd k → s.1.sockets k = S.state.1.sockets k)
    (hnext : S.state.1.next ≤ s.1.next) : Sound { S with state := s } := by
  refine h.changeState hsockets hnext (fun d hd ↦ ?_) (fun p hp ↦ ?_) fun p ↦ List.prefix_rfl
  · rw [haccepts.queue, if_neg (hunused d hd)]
  · rw [haccepts.queue]
    split_ifs with hpport
    · exact (List.drop_suffix _ _).trans (h.requests p hp)
    · exact h.requests p hp

/-- Without a descriptor no socket is made. -/
theorem Sound.loses (h : S.Sound) (hk : ¬S.IsEnd k) (hunused : S.Unused (port + 100))
    {r : Except ErrorNo (ℕ × ℕ × List UInt8)}
    (haccepts : Accepts S.state k port user false r s) : Sound { S with state := s } := by
  have htable := haccepts.table
  rw [if_neg Bool.false_ne_true] at htable
  refine h.takes hunused haccepts (fun j hj ↦ ?_) ?_
  · have hjk : j ≠ k := fun heq ↦ hk (heq ▸ hj)
    rw [htable]
    exact update_of_ne hjk _ _
  · rw [htable]
    exact le_rfl

/-- With a descriptor a socket is made that is not yet the end of a connection. -/
theorem Sound.makes (h : S.Sound) (hk : ¬S.IsEnd k) (hunused : S.Unused (port + 100))
    (hlocal : (S.state.1.sockets k).localEndpoint = some (.ip ip port))
    {r : Except ErrorNo (ℕ × ℕ × List UInt8)}
    (haccepts : Accepts S.state k port user true r s) {len : ℕ} {mem : List UInt8}
    (hr : r = .ok (new, len, mem)) :
    Sound { S with
      state := s
      taken := S.taken ++ [((s.1.sockets new).localEndpoint, mem.take len)] } ∧
      new < s.1.next ∧ ¬S.IsEnd new := by
  have hresult := haccepts.result.symm.trans hr
  have htable := haccepts.table
  rw [if_pos rfl] at hresult
  dsimp only at htable
  rw [if_pos rfl] at htable
  obtain ⟨hnew, hpair⟩ := Prod.mk.inj (Except.ok.inj hresult)
  obtain ⟨hlen, hmem⟩ := Prod.mk.inj hpair
  have htaken : mem.take len = (S.state.2.queue (port + 100)).take 64 := by
    rw [← hlen, ← hmem, List.take_left' rfl]
  -- the new socket has the local port of the one that listens
  have hendpoint : (s.1.sockets new).localEndpoint = some (.ip ip port) := by
    rw [htable, ← hnew]
    dsimp only
    rw [update_self, update_self, Socket.clonew, withRemote_localEndpoint, hlocal]
  -- without the request that was read, everything is as before
  have hsound : Sound { S with state := s } := by
    refine h.takes hunused haccepts (fun j hj ↦ ?_) ?_
    · have hjk : j ≠ k := fun heq ↦ hk (heq ▸ hj)
      rw [htable]
      dsimp only
      rw [update_of_ne (h.lt_next j hj).ne, update_of_ne hjk]
    · rw [htable]
      exact Nat.le_succ _
  refine ⟨{ hsound with taken := fun a ha ip' p hp ↦ ?_ }, ?_, fun hend ↦ ?_⟩
  · rcases List.mem_append.mp ha with hold | hnew
    · exact h.taken a hold ip' p hp
    · obtain rfl := List.mem_singleton.mp hnew
      obtain ⟨-, rfl⟩ := AddrType.ip.inj (Option.some.inj (hendpoint.symm.trans hp))
      rw [htaken]
      exact (List.take_prefix _ _).isInfix.trans (h.requests port hunused).isInfix
  · rw [htable, ← hnew]
    exact Nat.lt_succ_self _
  · exact absurd (h.lt_next new hend) (by omega)

end accept

theorem Sound.accept (h : S.Sound) {user : List UInt8} {hasFd : Bool}
    (hvalid : Valid checks S (.accept k user hasFd)) (hapart : S.Apart (.accept k user hasFd)) :
    (S.next checks (.accept k user hasFd)).Sound := by
  obtain ⟨-, hsome⟩ := hvalid
  obtain ⟨hk, hport⟩ := hapart
  obtain ⟨S', hstep⟩ := Option.isSome_iff_exists.mp hsome
  rw [next, hstep, Option.getD_some]
  rw [step] at hstep
  cases hrun : (sysAccept4 checks k user hasFd).run S.state with
  | error e s =>
    rw [hrun] at hstep
    cases hstep
  | ok r s =>
    rw [hrun] at hstep
    by_cases hloop : ∃ ip port, (S.state.1.sockets k).localEndpoint = some (.ip ip port) ∧
        Socket.isLoopback ip = true
    · obtain ⟨ip, port, hlocal, hip⟩ := hloop
      rw [hlocal] at hport
      by_cases hempty : S.state.2.queue (port + 100) = []
      · obtain ⟨rfl, rfl⟩ := wp_ok (wp_sysAccept4_empty hlocal hip hempty) hrun
        obtain rfl := Option.some.inj hstep
        exact h
      · have haccepts := wp_ok (wp_sysAccept4 hlocal hip hempty) hrun
        cases hasFd with
        | false =>
          obtain rfl : r = .error .EMFILE := haccepts.result
          obtain rfl := Option.some.inj hstep
          exact h.loses hk hport haccepts
        | true =>
          have hresult := haccepts.result
          rw [if_pos rfl] at hresult
          subst hresult
          obtain rfl := Option.some.inj hstep
          obtain ⟨hsound, hlt, hnew⟩ := h.makes hk hport hlocal haccepts rfl
          exact hsound.establish hlt hnew
    · have hother : ∀ ip port, (S.state.1.sockets k).localEndpoint = some (.ip ip port) →
          Socket.isLoopback ip = false := by
        intro ip port hlocal
        exact Bool.eq_false_of_not_eq_true fun hip ↦ hloop ⟨ip, port, hlocal, hip⟩
      obtain ⟨rfl, rfl⟩ := wp_ok (E := anyPanic) (wp_sysAccept4_none hother) hrun
      obtain rfl := Option.some.inj hstep
      exact h

/-! ## Runs -/

/-- The sockets before any of them asked for a connection. -/
def start (state : SockState) : Connections where
  state := state
  conns := fun _ ↦ ⟨0, none, 0, 0⟩
  count := 0
  sent := fun _ ↦ []
  received := fun _ ↦ []
  asked := fun _ ↦ []
  taken := []

theorem sound_start {state : SockState} (hempty : ∀ port, state.2.queue port = []) :
    (start state).Sound := by
  have hlive : ∀ d, d ∉ (start state).live := fun d ↦ List.not_mem_nil
  constructor
  case streams => exact ⟨fun d hd ↦ absurd hd (hlive d), fun d hd ↦ absurd hd (hlive d)⟩
  case requests =>
    intro port _
    change state.2.queue _ <:+ _
    rw [hempty]
    exact List.nil_suffix
  case taken => exact fun a ha ↦ absurd ha List.not_mem_nil
  case ports => exact fun d hd ↦ absurd hd (hlive d)
  case lt_next => exact fun k hk ↦ hk.elim fun d hd ↦ absurd hd.1 (hlive d)
  case ne_zero => exact fun d hd ↦ absurd hd (hlive d)
  case sender_inj => exact fun d hd ↦ absurd hd (hlive d)
  case idle => exact fun _ _ ↦ ⟨rfl, rfl⟩

theorem Sound.next (h : S.Sound) {e : Event} (hvalid : Valid checks S e) (hapart : S.Apart e) :
    (S.next checks e).Sound := by
  cases e with
  | connect k addr => exact h.connect hvalid hapart
  | accept k user hasFd => exact h.accept hvalid hapart
  | send k data flags dest => exact h.sends hvalid hapart
  | recv k buf => exact h.receives hvalid

end Connections

/-- From a start at which no data waits, connections whose calls keep them apart are isolated in
every state of the run. -/
theorem isolated_of_apart {checks : Bool} {state : SockState}
    (hempty : ∀ port, state.2.queue port = []) {events : List Connections.Event}
    (hvalid : Throughout (Connections.next checks) (Connections.Valid checks) (.start state) events)
    (hapart : Throughout (Connections.next checks) Connections.Apart (.start state) events) :
    Throughout (Connections.next checks) (fun S e ↦ (S.next checks e).Isolated) (.start state)
      events :=
  .of_invariant hvalid hapart (Connections.sound_start hempty)
    (fun _ _ h hvalid hapart ↦ h.next hvalid hapart) fun _ h ↦ h.isolated

/-- A connection with the port 7. -/
theorem isolated_of_apart_one :
    Throughout (Connections.next true) (fun S e ↦ (S.next true e).Isolated) (.start .listening)
      [.connect 0 ⟨2, 7, 0⟩, .accept 2 [] true, .send 0 [65] 0 none, .recv 3 [0, 0],
        .send 3 [66] 0 none, .recv 0 [0, 0]] := by
  refine isolated_of_apart (fun _ ↦ rfl) ?_ ?_
  · exact ⟨⟨by decide, rfl⟩, ⟨trivial, rfl⟩, ⟨by decide, rfl⟩, ⟨by decide, rfl⟩, ⟨by decide, rfl⟩,
      ⟨by decide, rfl⟩, trivial⟩
  · have hunused : ((Connections.start .listening).next true (.connect 0 ⟨2, 7, 0⟩)).Unused
        (7 + 100) := by decide
    exact ⟨⟨by decide, fun _ ↦ ⟨by decide, by decide, by decide, rfl, rfl⟩⟩,
      ⟨by decide, hunused⟩, ⟨by decide, rfl, by decide⟩, trivial, ⟨by decide, rfl, by decide⟩,
      trivial, trivial⟩

/-- The second of two connections with one port receives what was sent on the first. -/
theorem not_isolated :
    Throughout (Connections.next true) (Connections.Valid true) (.start .listening)
      [.connect 0 ⟨2, 7, 0⟩, .accept 2 [] true, .connect 1 ⟨2, 7, 0⟩, .accept 2 [] true,
        .send 0 [65] 0 none, .recv 4 [0, 0]] ∧
    ¬Throughout (Connections.next true) (fun S e ↦ (S.next true e).Isolated) (.start .listening)
      [.connect 0 ⟨2, 7, 0⟩, .accept 2 [] true, .connect 1 ⟨2, 7, 0⟩, .accept 2 [] true,
        .send 0 [65] 0 none, .recv 4 [0, 0]] := by
  constructor
  · exact ⟨⟨by decide, rfl⟩, ⟨trivial, rfl⟩, ⟨by decide, rfl⟩, ⟨trivial, rfl⟩, ⟨by decide, rfl⟩,
      ⟨by decide, rfl⟩, trivial⟩
  · rintro ⟨-, -, -, -, -, hisolated, -⟩
    have hreceived := hisolated.received (1, true) (by decide)
    revert hreceived
    decide

end Maturin
