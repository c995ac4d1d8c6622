import Maturin.Base.Slice
import Maturin.File.Disk
import Maturin.Socket.Loopback
import Maturin.Syscall.Flags

/-!
# Sockets

`Socket` of `file/socket/mod.rs`. Data goes to the port of the remote endpoint and comes from the
port of the local one, and nothing else of an endpoint is looked at but that its address is one of
this machine. The calls that build a connection use the port `port + 100`, which a release build
wraps around.
-/

open Exec

namespace Maturin

/-- `+` on `u16` -/
def addPort {τ : Type} (checks : Bool) (a b : Port) : EStateM Panic τ Port :=
  if a.toNat + b.toNat < 2 ^ 16 then pure (a + b) else if checks then throw .overflow
  else pure (a + b)

/-- `-` on `u16` -/
def subPort {τ : Type} (checks : Bool) (a b : Port) : EStateM Panic τ Port :=
  if b.toNat ≤ a.toNat then pure (a - b) else if checks then throw .overflow else pure (a - b)

/-- `IpAddr`, with the values of the port and the address, which memory has in network order. -/
structure IpAddr where
  family : BitVec 16
  port : Port
  addr : BitVec 32
  deriving DecidableEq

inductive AddrType
  | ip (ip : BitVec 32) (port : Port)
  | unknown
  deriving DecidableEq

/-- `addr_resolution` -/
def addrResolution (a : IpAddr) : AddrType :=
  if a.family = 2 then .ip a.addr a.port else .unknown

/-- `SocketInner`, and the fields of `Socket` that never change -/
structure Socket where
  flags : OpenFlags
  localEndpoint : Option AddrType
  remoteEndpoint : Option AddrType
  isListening : Bool
  deriving DecidableEq

namespace Socket

def new : Socket where
  flags := OpenFlags.RDWR ||| OpenFlags.CLOEXEC ||| OpenFlags.NON_BLOCK
  localEndpoint := none
  remoteEndpoint := none
  isListening := false

def clonew (self : Socket) : Socket where
  flags := OpenFlags.RDWR
  localEndpoint := self.localEndpoint
  remoteEndpoint := self.remoteEndpoint
  isListening := false

/-- Is the address one of this machine? -/
def isLoopback (ip : BitVec 32) : Bool := ip = 0 || ip = LOCAL_LOOPBACK_ADDR

/-- `set_endpoint`, with the socket afterwards -/
def setEndpoint (self : Socket) (addr : IpAddr) (isRemote : Bool) :
    EStateM Panic Net (Option Port × Socket) :=
  match addrResolution addr with
  | .ip ip port =>
    if isRemote then pure (some port, { self with remoteEndpoint := some (.ip ip port) })
    else do
      let port ← if port = 0 then modifyGet Net.getEphemeralPort else pure port
      pure (some port, { self with localEndpoint := some (.ip ip port) })
  | .unknown => pure (none, self)

/-- The port to which `sendto` sends; the flags 100 are those of a request for a connection. -/
def sendPort (checks : Bool) (flags : BitVec 32) (port : Port) : EStateM Panic Net Port :=
  if flags = 100 then
    if port = 0 then do
      let ephemeral ← modifyGet Net.getEphemeralPort
      let port ← addPort checks ephemeral 100
      subPort checks port 2
    else addPort checks port 100
  else
    if port = 0 then do
      let ephemeral ← modifyGet Net.getEphemeralPort
      subPort checks ephemeral 1
    else pure port

/-- `sendto`, to an address or to the remote endpoint -/
def sendto (checks : Bool) (self : Socket) (buf : List UInt8) (flags : BitVec 32)
    (dest : Option IpAddr) : EStateM Panic Net (Option ℕ) :=
  let endpoint := match dest with
    | none => self.remoteEndpoint.getD .unknown
    | some addr => addrResolution addr
  match endpoint with
  | .ip ip port =>
    if isLoopback ip then do
      let port ← sendPort checks flags port
      modifyGet (Net.writeToPort port buf)
    else pure none
  | .unknown => pure none

/-- `recvfrom`, at an address or at the local endpoint, with the buffer after the call -/
def recvfrom (checks : Bool) (self : Socket) (buf : List UInt8) (flags : BitVec 32)
    (src : Option IpAddr) : EStateM Panic Net (Option ℕ × List UInt8) :=
  let endpoint := match src with
    | none => self.localEndpoint.getD .unknown
    | some addr => addrResolution addr
  match endpoint with
  | .ip ip port =>
    if isLoopback ip then do
      let port ← if flags = 100 then addPort checks port 100 else pure port
      modifyGet (Net.readFromPort port buf)
    else pure (none, buf)
  | .unknown => pure (none, buf)

/-- `read` of the trait `File` -/
def read (checks : Bool) (self : Socket) (buf : List UInt8) :
    EStateM Panic Net (Option ℕ × List UInt8) :=
  self.recvfrom checks buf 0 none

/-- `write` of the trait `File` -/
def write (checks : Bool) (self : Socket) (buf : List UInt8) : EStateM Panic Net (Option ℕ) :=
  self.sendto checks buf 0 none

/-- `ready_to_read` -/
def readyToRead (checks : Bool) (self : Socket) : EStateM Panic Net Bool :=
  match self.localEndpoint with
  | some (.ip _ port) => do
    let port ← if self.isListening then addPort checks port 100 else pure port
    let net ← get
    pure (net.canRead port).isSome
  | _ => pure false

/-- `ready_to_write` -/
def readyToWrite (self : Socket) : EStateM Panic Net Bool :=
  match self.remoteEndpoint with
  | some (.ip _ port) => do
    let net ← get
    pure (net.canWrite port).isSome
  | _ => pure true

end Socket

end Maturin
