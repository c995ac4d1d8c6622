import Maturin.File.Disk
import Maturin.Lib.Bitflags
import Maturin.Poll.Epoll
import Maturin.Signal.Signal
import Maturin.Syscall.Mmap
import Maturin.Task.Kernel

/-!
# Options of the system calls

The sets of flags and the enumerations of `syscall/flags.rs`, and those of the other modules that a
system call makes of its arguments. A set of flags is declared by the places of its bits. An
enumeration is a table of the numbers of its variants, as `numeric_enum!` takes them.
-/

namespace Maturin

open Bitflags

/-! ## Sets of flags -/

/-- `WNOHANG`, `WIMTRACED` and `WCONTINUED` -/
def WaitFlags.all : BitVec 32 := ofPlaces 32 [0, 1, 3]

abbrev WaitFlags := Bitflags WaitFlags.all

/-- `PROT_READ`, `PROT_WRITE` and `PROT_EXEC` -/
def MMAPPROT.all : BitVec 32 := ofPlaces 32 [0, 1, 2]

/-- `MAP_SHARED`, `MAP_PRIVATE`, `MAP_FIXED`, `MAP_ANONYMOUS` and `MAP_NORESERVE` -/
def MMAPFlags.all : BitVec 32 := ofPlaces 32 [0, 1, 4, 5, 14]

/-- `SYMLINK_NOFOLLOW` -/
def UtimensatFlags.all : BitVec 32 := ofPlaces 32 [8]

abbrev UtimensatFlags := Bitflags UtimensatFlags.all

/-- `NOREPLACE`, `EXCHANGE` and `WHITEOUT` -/
def RenameFlags.all : BitVec 32 := ofPlaces 32 [0, 1, 2]

abbrev RenameFlags := Bitflags RenameFlags.all

/-- `ASYNC`, `INVALIDATE` and `SYNC` -/
def MSyncFlags.all : BitVec 32 := ofPlaces 32 [0, 1, 2]

abbrev MSyncFlags := Bitflags MSyncFlags.all

/-- The flags from `CLONE_NEWTIME` to `CLONE_CHILD_SETTID`. -/
def CloneFlags.all : BitVec 32 := ofPlaces 32 (List.range' 7 18)

/-- `WRONLY`, `RDWR`, `CREATE`, `EXCLUSIVE`, `NOCTTY`, `EXCL`, `NON_BLOCK`, `TEXT`, `BINARY`,
`DSYNC`, `NOFOLLOW`, `CLOEXEC` and `DIR` -/
def OpenFlags.all : BitVec 32 := ofPlaces 32 [0, 1, 6, 7, 8, 9, 11, 14, 15, 16, 17, 19, 21]

def OpenFlags.NON_BLOCK : OpenFlags := 1#32 <<< 11

def OpenFlags.CLOEXEC : OpenFlags := 1#32 <<< 19

/-! ## Enumerations -/

/-- The options of `sys_fcntl64`. -/
inductive Fcntl64Cmd
  | F_DUPFD
  | F_GETFD
  | F_SETFD
  | F_GETFL
  | F_SETFL
  | F_DUPFD_CLOEXEC
  deriving DecidableEq

def Fcntl64Cmd.tryFrom (cmd : BitVec 64) : Option Fcntl64Cmd :=
  [(0, F_DUPFD), (1, F_GETFD), (2, F_SETFD), (3, F_GETFL), (4, F_SETFL),
    (1030, F_DUPFD_CLOEXEC)].lookup cmd.toNat

/-- The domain of a socket. -/
inductive Domain
  | AF_UNIX
  | AF_INET
  deriving DecidableEq

def Domain.tryFrom (domain : BitVec 64) : Option Domain :=
  [(1, AF_UNIX), (2, AF_INET)].lookup domain.toNat

/-- The type of a socket. -/
inductive SocketType
  | SOCK_STREAM
  | SOCK_DGRAM
  | SOCK_RAW
  | SOCK_RDM
  | SOCK_SEQPACKET
  | SOCK_DCCP
  | SOCK_PACKET
  | SOCK_NONBLOCK
  | SOCK_CLOEXEC
  deriving DecidableEq

def SocketType.tryFrom (t : BitVec 64) : Option SocketType :=
  [(1, SOCK_STREAM), (2, SOCK_DGRAM), (3, SOCK_RAW), (4, SOCK_RDM), (5, SOCK_SEQPACKET),
    (6, SOCK_DCCP), (10, SOCK_PACKET), (0x800, SOCK_NONBLOCK),
    (0x80000, SOCK_CLOEXEC)].lookup t.toNat

/-- The bits of the type of a socket; the others are flags of the new descriptor. -/
def SOCKET_TYPE_MASK : BitVec 32 := 0xff

/-- `SignalNo::try_from`; every number below 64 is one of a signal. -/
def SignalNo.tryFrom (num : BitVec 8) : Option SignalNo :=
  if h : num.toNat < 64 then some ⟨num.toNat, h⟩ else none

/-! ## The flags of `sys_clone` -/

/-- The lowest six bits are the signal that the parent is sent, the others are flags. -/
def resolveCloneFlagsAndSignal (flag : BitVec 64) :
    Except Panic (Bitflags CloneFlags.all × SignalNo) :=
  match SignalNo.tryFrom (flag.setWidth 8 &&& 0x3f#8) with
  | some signal => .ok (fromBitsTruncate CloneFlags.all (flag.setWidth 32 &&& ~~~0x3f#32), signal)
  | none => .error (.unwrapNone .resolveCloneFlagsAndSignal)

variable {flag : BitVec 64}

theorem SignalNo.tryFrom_and_isSome (num : BitVec 8) : (tryFrom (num &&& 0x3f#8)).isSome := by
  have hle : (num &&& 0x3f#8).toNat ≤ 0x3f := by
    rw [BitVec.toNat_and]
    exact Nat.and_le_right
  rw [tryFrom, dif_pos (Nat.lt_succ_of_le hle)]
  rfl

/-- The signal is one of the 64, whatever the argument is. -/
theorem exists_resolveCloneFlagsAndSignal (flag : BitVec 64) :
    ∃ r, resolveCloneFlagsAndSignal flag = .ok r := by
  obtain ⟨signal, hsignal⟩ := Option.isSome_iff_exists.mp
    (SignalNo.tryFrom_and_isSome (flag.setWidth 8))
  rw [resolveCloneFlagsAndSignal, hsignal]
  exact ⟨_, rfl⟩

/-- Bits that are neither a flag nor part of the signal are ignored. -/
theorem resolveCloneFlagsAndSignal_and (flag : BitVec 64) :
    resolveCloneFlagsAndSignal (flag &&& (CloneFlags.all ||| 0x3f#32).setWidth 64) =
      resolveCloneFlagsAndSignal flag := by
  have hsignal : (flag &&& (CloneFlags.all ||| 0x3f#32).setWidth 64).setWidth 8 &&& 0x3f#8 =
      flag.setWidth 8 &&& 0x3f#8 := by
    rw [BitVec.setWidth_and, BitVec.and_assoc]
    congr 1
  have hflags : fromBitsTruncate CloneFlags.all
      ((flag &&& (CloneFlags.all ||| 0x3f#32).setWidth 64).setWidth 32 &&& ~~~0x3f#32) =
        fromBitsTruncate CloneFlags.all (flag.setWidth 32 &&& ~~~0x3f#32) := by
    apply fromBitsTruncate_congr
    rw [BitVec.setWidth_and, BitVec.and_assoc, BitVec.and_assoc, BitVec.and_assoc]
    congr 1
  rw [resolveCloneFlagsAndSignal, resolveCloneFlagsAndSignal, hsignal, hflags]

end Maturin
