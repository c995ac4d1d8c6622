import Maturin.Syscall.Flags
import Maturin.Task.WaitingBoard
import Mathlib.Data.Fin.VecNotation

/-!
# Decoding the arguments of a system call

`syscall` takes the number of a call and the words of six registers. It looks the number up and
makes the typed arguments of the handler (`Call`) of the words; some handlers then make sets of
flags or enumerations of theirs (`Call.resolve`). A word that is not of the type is either refused
with an error, or what is unknown in it is ignored, or an `unwrap` panics.

A register is a word of 64 bits, whether it is a `usize`, an `isize` or a pointer; an `i32` or a
`u32` is its lower half.
-/

open Bitflags

namespace Maturin

/-- A register. -/
abbrev Usize := BitVec 64

/-- The registers `a0` to `a5`. -/
abbrev Args := Fin 6 → Usize

/-- `as i32` and `as u32` -/
def as32 (x : Usize) : BitVec 32 := x.setWidth 32

/-- The numbers of the system calls. -/
inductive SyscallNo
  | UNKNOWN | GETCWD | EPOLL_CREATE | EPOLL_CTL | EPOLL_WAIT | DUP | DUP3 | FCNTL64 | IOCTL | MKDIR
  | UNLINKAT | LINKAT | UMOUNT | MOUNT | STATFS | ACCESS | CHDIR | CHMOD | OPEN | CLOSE | PIPE
  | GETDENTS64 | LSEEK | READ | WRITE | READV | WRITEV | PREAD | SENDFILE64 | PSELECT6 | PPOLL
  | READLINKAT | FSTATAT | FSTAT | FSYNC | FDATASYNC | UTIMENSAT | EXIT | EXIT_GROUP
  | SET_TID_ADDRESS | FUTEX | SET_ROBUST_LIST | GET_ROBUST_LIST | NANOSLEEP | GETITIMER | SETITIMER
  | CLOCK_GET_TIME | SYSLOG | YIELD | KILL | TKILL | SIGACTION | SIGPROCMASK | SIGTIMEDWAIT
  | SIGRETURN | TIMES | UNAME | GETRUSAGE | UMASK | PRCTL | GET_TIME_OF_DAY | GETPID | GETPPID
  | GETUID | GETEUID | GETGID | GETEGID | GETTID | SYSINFO | SOCKET | BIND | LISTEN | ACCEPT
  | CONNECT | GETSOCKNAME | GETPEERNAME | SENDTO | RECVFROM | SETSOCKOPT | GETSOCKOPT | SHUDOWN
  | SENDMSG | RECVMSG | BRK | MUNMAP | CLONE | EXECVE | MMAP | MPROTECT | MSYNC | MADVISE | ACCEPT4
  | WAIT4 | PRLIMIT64 | RENAMEAT2 | MEMBARRIER
  deriving DecidableEq, Repr

/-- `SyscallNo::try_from` -/
def SyscallNo.tryFrom (syscallId : BitVec 64) : Option SyscallNo :=
  [(2 ^ 64 - 1, UNKNOWN), (17, GETCWD), (20, EPOLL_CREATE), (21, EPOLL_CTL), (22, EPOLL_WAIT),
    (23, DUP), (24, DUP3), (25, FCNTL64), (29, IOCTL), (34, MKDIR), (35, UNLINKAT), (37, LINKAT),
    (39, UMOUNT), (40, MOUNT), (43, STATFS), (48, ACCESS), (49, CHDIR), (53, CHMOD), (56, OPEN),
    (57, CLOSE), (59, PIPE), (61, GETDENTS64), (62, LSEEK), (63, READ), (64, WRITE), (65, READV),
    (66, WRITEV), (67, PREAD), (71, SENDFILE64), (72, PSELECT6), (73, PPOLL), (78, READLINKAT),
    (79, FSTATAT), (80, FSTAT), (82, FSYNC), (83, FDATASYNC), (88, UTIMENSAT), (93, EXIT),
    (94, EXIT_GROUP), (96, SET_TID_ADDRESS), (98, FUTEX), (99, SET_ROBUST_LIST),
    (100, GET_ROBUST_LIST), (101, NANOSLEEP), (102, GETITIMER), (103, SETITIMER),
    (113, CLOCK_GET_TIME), (116, SYSLOG), (124, YIELD), (129, KILL), (130, TKILL), (134, SIGACTION),
    (135, SIGPROCMASK), (137, SIGTIMEDWAIT), (139, SIGRETURN), (153, TIMES), (160, UNAME),
    (165, GETRUSAGE), (166, UMASK), (167, PRCTL), (169, GET_TIME_OF_DAY), (172, GETPID),
    (173, GETPPID), (174, GETUID), (175, GETEUID), (176, GETGID), (177, GETEGID), (178, GETTID),
    (179, SYSINFO), (198, SOCKET), (200, BIND), (201, LISTEN), (202, ACCEPT), (203, CONNECT),
    (204, GETSOCKNAME), (205, GETPEERNAME), (206, SENDTO), (207, RECVFROM), (208, SETSOCKOPT),
    (209, GETSOCKOPT), (210, SHUDOWN), (211, SENDMSG), (212, RECVMSG), (214, BRK), (215, MUNMAP),
    (220, CLONE), (221, EXECVE), (222, MMAP), (226, MPROTECT), (227, MSYNC), (233, MADVISE),
    (242, ACCEPT4), (260, WAIT4), (261, PRLIMIT64), (276, RENAMEAT2),
    (283, MEMBARRIER)].lookup syscallId.toNat

/-- A handler and its arguments. -/
inductive Call
  | sysGetcwd (buf len : Usize)
  | sysEpollCreate (flags : Usize)
  | sysEpollCtl (epfd op fd : BitVec 32) (event : Usize)
  | sysEpollWait (epfd : BitVec 32) (event : Usize) (maxevents timeout : BitVec 32)
  | sysDup (fd : Usize)
  | sysDup3 (oldFd newFd : Usize)
  | sysFcntl64 (fd cmd arg : Usize)
  | sysUnlinkat (dirFd : BitVec 32) (path : Usize) (flags : BitVec 32)
  | sysLinkat (oldDirFd : BitVec 32) (oldPath : Usize) (newDirFd : BitVec 32) (newPath : Usize)
    (flags : BitVec 32)
  | sysUmount (mountPath : Usize) (flags : BitVec 32)
  | sysMount (device mountPath fsType : Usize) (flags : BitVec 32) (data : Usize)
  | sysStatfs (path stat : Usize)
  | sysAccess (dirFd : BitVec 32) (path mode : Usize)
  | sysMkdir (dirFd : BitVec 32) (path : Usize) (userMode : BitVec 32)
  | sysChdir (path : Usize)
  | sysOpen (dirFd : BitVec 32) (path : Usize) (flags userMode : BitVec 32)
  | sysClose (fd : Usize)
  | sysPipe (pipe : Usize)
  | sysGetdents64 (fd buf len : Usize)
  | sysLseek (fd offset whence : Usize)
  | sysRead (fd buf len : Usize)
  | sysWrite (fd buf len : Usize)
  | sysReadv (fd iov iovCnt : Usize)
  | sysWritev (fd iov iovCnt : Usize)
  | sysPread (fd buf count offset : Usize)
  | sysSendfile64 (outFd inFd offset count : Usize)
  | sysPselect6 (nfds readfds writefds exceptfds timeout sigmask : Usize)
  | sysPpoll (ufds nfds timeout sigmask : Usize)
  | sysReadlinkat (dirFd : BitVec 32) (path buf len : Usize)
  | sysFstatat (dirFd : BitVec 32) (path kstat : Usize)
  | sysFstat (fd kstat : Usize)
  | sysUtimensat (dirFd : BitVec 32) (path timeSpec : Usize) (flags : UtimensatFlags)
  | sysExit (exitCode : BitVec 32)
  | sysSetTidAddress (addr : Usize)
  | sysFutex (uaddr : Usize) (futexOp val : BitVec 32) (val2 uaddr2 : Usize) (val3 : BitVec 32)
  | sysNanosleep (req rem : Usize)
  | sysGettimer (which currValue : Usize)
  | sysSettimer (which newValue oldValue : Usize)
  | sysClockGettime (clockid timeSpec : Usize)
  | sysYield
  | sysKill (pid signalId : Usize)
  | sysTkill (tid signalId : Usize)
  | sysSigaction (signum action oldAction : Usize)
  | sysSigprocmask (how : BitVec 32) (set oldSet sigsetsize : Usize)
  | sysSigreturn
  | sysTimes (tms : Usize)
  | sysUname (uts : Usize)
  | sysGetrusage (who : BitVec 32) (utime : Usize)
  | sysUmask (newMask : BitVec 32)
  | sysGetTimeOfDay (timeVal : Usize)
  | sysGetpid
  | sysGetppid
  | sysGetuid
  | sysGeteuid
  | sysGetgid
  | sysGetegid
  | sysGettid
  | sysSysinfo (info : Usize)
  | sysSocket (domain sType protocol : Usize)
  | sysSendto (fd buf len : Usize) (flags : BitVec 32) (destAddr addrLen : Usize)
  | sysRecvfrom (fd buf len : Usize) (flags : BitVec 32) (srcAddr srcLenPos : Usize)
  | sysBind (fd addr addrLen : Usize)
  | sysListen (fd backlog : Usize)
  | sysConnect (fd addr addrLen : Usize)
  | sysAccept4 (fd addr addrLen : Usize) (flags : BitVec 32)
  | sysBrk (brk : Usize)
  | sysMunmap (start len : Usize)
  | sysClone (flags userStack ptid tls ctid : Usize)
  | sysMmap (start len : Usize) (prot : Bitflags MMAPPROT.all) (flags : Bitflags MMAPFlags.all)
    (fd : BitVec 32) (offset : Usize)
  | sysMprotect (start len : Usize) (prot : Bitflags MMAPPROT.all)
  | sysMsync (start len : Usize) (flags : MSyncFlags)
  | sysExecve (path args envs : Usize)
  | sysWait4 (pid exitCodePtr : Usize) (option : WaitFlags)
  | sysPrlimt64 (pid : Usize) (resource : BitVec 32) (newLimit oldLimit : Usize)
  | sysRenameat2 (oldDirFd : BitVec 32) (oldPath : Usize) (newDirFd : BitVec 32) (newPath : Usize)
    (flags : RenameFlags)
  | sysIoctl (fd request argp : Usize)
  deriving DecidableEq

/-- What `syscall` does with a call: a handler is called, or 0 is returned at once. -/
inductive Dispatched
  | call (c : Call)
  | zero
  deriving DecidableEq

/-- `from_bits(word as u32).unwrap()` -/
def fromBitsUnwrap (all : BitVec 32) (word : Usize) : Except Panic (Bitflags all) :=
  match fromBits all (as32 word) with
  | some flags => .ok flags
  | none => .error (.unwrapNone .syscall)

/-- The arms of `syscall`. -/
def SyscallNo.dispatch (syscallId : SyscallNo) (args : Args) : Except Panic Dispatched :=
  match syscallId with
  | .GETCWD => .ok <| .call <| .sysGetcwd (args 0) (args 1)
  | .EPOLL_CREATE => .ok <| .call <| .sysEpollCreate (args 0)
  | .EPOLL_CTL =>
    .ok <| .call <| .sysEpollCtl (as32 (args 0)) (as32 (args 1)) (as32 (args 2)) (args 3)
  | .EPOLL_WAIT =>
    .ok <| .call <| .sysEpollWait (as32 (args 0)) (args 1) (as32 (args 2)) (as32 (args 3))
  | .DUP => .ok <| .call <| .sysDup (args 0)
  | .DUP3 => .ok <| .call <| .sysDup3 (args 0) (args 1)
  | .FCNTL64 => .ok <| .call <| .sysFcntl64 (args 0) (args 1) (args 2)
  | .UNLINKAT => .ok <| .call <| .sysUnlinkat (as32 (args 0)) (args 1) (as32 (args 2))
  | .LINKAT =>
    .ok <| .call <|
      .sysLinkat (as32 (args 0)) (args 1) (as32 (args 2)) (args 3) (as32 (args 4))
  | .UMOUNT => .ok <| .call <| .sysUmount (args 0) (as32 (args 1))
  | .MOUNT => .ok <| .call <| .sysMount (args 0) (args 1) (args 2) (as32 (args 3)) (args 4)
  | .STATFS => .ok <| .call <| .sysStatfs (args 0) (args 1)
  | .ACCESS => .ok <| .call <| .sysAccess (as32 (args 0)) (args 1) (args 2)
  | .MKDIR => .ok <| .call <| .sysMkdir (as32 (args 0)) (args 1) (as32 (args 2))
  | .CHDIR => .ok <| .call <| .sysChdir (args 0)
  | .OPEN => .ok <| .call <| .sysOpen (as32 (args 0)) (args 1) (as32 (args 2)) (as32 (args 3))
  | .CLOSE => .ok <| .call <| .sysClose (args 0)
  | .PIPE => .ok <| .call <| .sysPipe (args 0)
  | .GETDENTS64 => .ok <| .call <| .sysGetdents64 (args 0) (args 1) (args 2)
  | .LSEEK => .ok <| .call <| .sysLseek (args 0) (args 1) (args 2)
  | .READ => .ok <| .call <| .sysRead (args 0) (args 1) (args 2)
  | .WRITE => .ok <| .call <| .sysWrite (args 0) (args 1) (args 2)
  | .READV => .ok <| .call <| .sysReadv (args 0) (args 1) (args 2)
  | .WRITEV => .ok <| .call <| .sysWritev (args 0) (args 1) (args 2)
  | .PREAD => .ok <| .call <| .sysPread (args 0) (args 1) (args 2) (args 3)
  | .SENDFILE64 => .ok <| .call <| .sysSendfile64 (args 0) (args 1) (args 2) (args 3)
  | .PSELECT6 =>
    .ok <| .call <| .sysPselect6 (args 0) (args 1) (args 2) (args 3) (args 4) (args 5)
  | .PPOLL => .ok <| .call <| .sysPpoll (args 0) (args 1) (args 2) (args 3)
  | .READLINKAT => .ok <| .call <| .sysReadlinkat (as32 (args 0)) (args 1) (args 2) (args 3)
  | .FSTATAT => .ok <| .call <| .sysFstatat (as32 (args 0)) (args 1) (args 2)
  | .FSTAT => .ok <| .call <| .sysFstat (args 0) (args 1)
  | .UTIMENSAT => do
    let flags ← fromBitsUnwrap UtimensatFlags.all (args 3)
    .ok <| .call <| .sysUtimensat (as32 (args 0)) (args 1) (args 2) flags
  | .EXIT => .ok <| .call <| .sysExit (as32 (args 0))
  | .EXIT_GROUP => .ok <| .call <| .sysExit (as32 (args 0))
  | .SET_TID_ADDRESS => .ok <| .call <| .sysSetTidAddress (args 0)
  | .FUTEX =>
    .ok <| .call <|
      .sysFutex (args 0) (as32 (args 1)) (as32 (args 2)) (args 3) (args 4) (as32 (args 5))
  | .NANOSLEEP => .ok <| .call <| .sysNanosleep (args 0) (args 1)
  | .GETITIMER => .ok <| .call <| .sysGettimer (args 0) (args 1)
  | .SETITIMER => .ok <| .call <| .sysSettimer (args 0) (args 1) (args 2)
  | .CLOCK_GET_TIME => .ok <| .call <| .sysClockGettime (args 0) (args 1)
  | .YIELD => .ok <| .call <| .sysYield
  | .KILL => .ok <| .call <| .sysKill (args 0) (args 1)
  | .TKILL => .ok <| .call <| .sysTkill (args 0) (args 1)
  | .SIGACTION => .ok <| .call <| .sysSigaction (args 0) (args 1) (args 2)
  | .SIGPROCMASK =>
    .ok <| .call <| .sysSigprocmask (as32 (args 0)) (args 1) (args 2) (args 3)
  | .SIGRETURN => .ok <| .call <| .sysSigreturn
  | .TIMES => .ok <| .call <| .sysTimes (args 0)
  | .UNAME => .ok <| .call <| .sysUname (args 0)
  | .GETRUSAGE => .ok <| .call <| .sysGetrusage (as32 (args 0)) (args 1)
  | .UMASK => .ok <| .call <| .sysUmask (as32 (args 0))
  | .GET_TIME_OF_DAY => .ok <| .call <| .sysGetTimeOfDay (args 0)
  | .GETPID => .ok <| .call <| .sysGetpid
  | .GETPPID => .ok <| .call <| .sysGetppid
  | .GETUID => .ok <| .call <| .sysGetuid
  | .GETEUID => .ok <| .call <| .sysGeteuid
  | .GETGID => .ok <| .call <| .sysGetgid
  | .GETEGID => .ok <| .call <| .sysGetegid
  | .GETTID => .ok <| .call <| .sysGettid
  | .SYSINFO => .ok <| .call <| .sysSysinfo (args 0)
  | .SOCKET => .ok <| .call <| .sysSocket (args 0) (args 1) (args 2)
  | .SENDTO =>
    .ok <| .call <| .sysSendto (args 0) (args 1) (args 2) (as32 (args 3)) (args 4) (args 5)
  | .RECVFROM =>
    .ok <| .call <| .sysRecvfrom (args 0) (args 1) (args 2) (as32 (args 3)) (args 4) (args 5)
  | .BIND => .ok <| .call <| .sysBind (args 0) (args 1) (args 2)
  | .LISTEN => .ok <| .call <| .sysListen (args 0) (args 1)
  | .CONNECT => .ok <| .call <| .sysConnect (args 0) (args 1) (args 2)
  | .ACCEPT => .ok <| .call <| .sysAccept4 (args 0) (args 1) (args 2) (as32 (args 3))
  | .ACCEPT4 => .ok <| .call <| .sysAccept4 (args 0) (args 1) (args 2) (as32 (args 3))
  | .BRK => .ok <| .call <| .sysBrk (args 0)
  | .MUNMAP => .ok <| .call <| .sysMunmap (args 0) (args 1)
  | .CLONE => .ok <| .call <| .sysClone (args 0) (args 1) (args 2) (args 3) (args 4)
  | .MMAP =>
    .ok <| .call <|
      .sysMmap (args 0) (args 1) (fromBitsTruncate MMAPPROT.all (as32 (args 2)))
        (fromBitsTruncate MMAPFlags.all (as32 (args 3))) (as32 (args 4)) (args 5)
  | .MPROTECT => do
    let prot ← fromBitsUnwrap MMAPPROT.all (args 2)
    .ok <| .call <| .sysMprotect (args 0) (args 1) prot
  | .MSYNC => do
    let flags ← fromBitsUnwrap MSyncFlags.all (args 2)
    .ok <| .call <| .sysMsync (args 0) (args 1) flags
  | .EXECVE => .ok <| .call <| .sysExecve (args 0) (args 1) (args 2)
  | .WAIT4 => do
    let option ← fromBitsUnwrap WaitFlags.all (args 2)
    .ok <| .call <| .sysWait4 (args 0) (args 1) option
  | .PRLIMIT64 => .ok <| .call <| .sysPrlimt64 (args 0) (as32 (args 1)) (args 2) (args 3)
  | .RENAMEAT2 => do
    let flags ← fromBitsUnwrap RenameFlags.all (args 4)
    .ok <| .call <|
      .sysRenameat2 (as32 (args 0)) (args 1) (as32 (args 2)) (args 3) flags
  | .IOCTL => .ok <| .call <| .sysIoctl (args 0) (args 1) (args 2)
  | .SIGTIMEDWAIT => .ok .zero
  | .MEMBARRIER => .ok .zero
  | .FSYNC => .ok .zero
  | _ => .ok .zero

/-! ## What the handlers decode themselves -/

/-- A call whose words the handler has decoded. -/
inductive Resolved
  | clone (flags : Bitflags CloneFlags.all) (signal : SignalNo) (userStack : Option Usize)
    (ptid tls ctid : Usize)
  | fcntl64 (fd : Usize) (cmd : Fcntl64Cmd) (arg : Usize)
  | setStatus (fd : Usize) (flags : Bitflags OpenFlags.all)
  | open (dirFd : BitVec 32) (path : Usize) (flags : Bitflags OpenFlags.all) (userMode : BitVec 32)
  | socket (domain : Domain) (socketType : SocketType) (protocol : Usize)
  | epollCtl (epfd : BitVec 32) (operator : EpollCtl) (fd : BitVec 32) (event : Usize)
  | accept4 (fd addr addrLen : Usize) (nonBlock : Bool)
  | futex (uaddr : Usize) (operation : FutexOp) (val : BitVec 32) (val2 uaddr2 : Usize)
    (val3 : BitVec 32)
  | same (c : Call)
  deriving DecidableEq

/-- The top of the new stack in `sys_clone`; 0 means the stack of the caller. -/
def cloneStack (userStack : Usize) : Except ErrorNo (Option Usize) :=
  if userStack.toInt < 0 then .error .EINVAL
  else if userStack.toInt > 0 then .ok (some userStack)
  else .ok none

/-- Does `sys_accept4` return when no connection waits? Flags that `OpenFlags` does not declare make
it wait, as no flag does. -/
def acceptNonBlock (flags : BitVec 32) : Bool :=
  match fromBits OpenFlags.all (flags &&& ~~~SOCKET_TYPE_MASK) with
  | some fl => fl.contains OpenFlags.NON_BLOCK
  | none => false

/-- `sys_clone`, `sys_fcntl64`, `sys_open`, `sys_socket`, `sys_epoll_ctl`, `sys_accept4` and
`sys_futex` up to the point where their arguments are decoded, when the checks before it pass. The
other handlers take their arguments as they are. -/
def Call.resolve : Call → Except Panic (Except ErrorNo Resolved)
  | .sysClone flags userStack ptid tls ctid => do
    let (cloneFlags, signal) ← resolveCloneFlagsAndSignal flags
    match cloneStack userStack with
    | .ok userStack => .ok (.ok (.clone cloneFlags signal userStack ptid tls ctid))
    | .error e => .ok (.error e)
  | .sysFcntl64 fd cmd arg =>
    match Fcntl64Cmd.tryFrom cmd with
    | some .F_SETFL =>
      match fromBits OpenFlags.all (as32 arg) with
      | some flags => .ok (.ok (.setStatus fd flags))
      | none => .ok (.error .EINVAL)
    | some cmd => .ok (.ok (.fcntl64 fd cmd arg))
    | none => .ok (.error .EINVAL)
  | .sysOpen dirFd path flags userMode =>
    match fromBits OpenFlags.all flags with
    | some flags => .ok (.ok (.open dirFd path flags userMode))
    | none => .ok (.error .ENOENT)
  | .sysSocket domain sType protocol =>
    match Domain.tryFrom domain with
    | some domain =>
      match SocketType.tryFrom (sType &&& SOCKET_TYPE_MASK.setWidth 64) with
      | some t => .ok (.ok (.socket domain t protocol))
      | none => .ok (.error .EINVAL)
    | none => .ok (.error .EAFNOSUPPORT)
  | .sysEpollCtl epfd op fd event =>
    match EpollCtl.tryFrom op.toInt with
    | some operator => .ok (.ok (.epollCtl epfd operator fd event))
    | none => .ok (.error .EINVAL)
  | .sysAccept4 fd addr addrLen flags =>
    .ok (.ok (.accept4 fd addr addrLen (acceptNonBlock flags)))
  | .sysFutex uaddr futexOp val val2 uaddr2 val3 =>
    match futexOperation futexOp with
    | .WAIT => .ok (.ok (.futex uaddr .WAIT val val2 uaddr2 val3))
    | .WAKE => .ok (.ok (.futex uaddr .WAKE val val2 uaddr2 val3))
    | _ => .ok (.error .EINVAL)
  | c => .ok (.ok (.same c))

/-- What a call does with its arguments; `none` if it ignores all of them. -/
def SyscallNo.decode (syscallId : SyscallNo) (args : Args) :
    Except Panic (Except ErrorNo (Option Resolved)) := do
  match ← syscallId.dispatch args with
  | .call c => return (← c.resolve).map some
  | .zero => return .ok none

/-- An unknown number is answered with 0. -/
def syscall (syscallId : Usize) (args : Args) : Except Panic (Except ErrorNo (Option Resolved)) :=
  match SyscallNo.tryFrom syscallId with
  | some syscallId => syscallId.decode args
  | none => .ok (.ok none)

/-! ## Arguments with unknown bits -/

/-- The argument that an arm of `syscall` unwraps, and the flags that it declares. -/
def SyscallNo.unwrapped : SyscallNo → Option (Fin 6 × BitVec 32)
  | .UTIMENSAT => some (3, UtimensatFlags.all)
  | .MPROTECT => some (2, MMAPPROT.all)
  | .MSYNC => some (2, MSyncFlags.all)
  | .WAIT4 => some (2, WaitFlags.all)
  | .RENAMEAT2 => some (4, RenameFlags.all)
  | _ => none

/-- Every set of flags among the arguments has declared bits only, and every enumeration is the
number of a variant. -/
def SyscallNo.Known (syscallId : SyscallNo) (args : Args) : Prop :=
  match syscallId with
  | .CLONE => Declared (CloneFlags.all ||| 0x3f#32) (as32 (args 0))
  | .MMAP => Declared MMAPPROT.all (as32 (args 2)) ∧ Declared MMAPFlags.all (as32 (args 3))
  | .OPEN => Declared OpenFlags.all (as32 (args 2))
  | .FCNTL64 =>
    (Fcntl64Cmd.tryFrom (args 1)).isSome ∧
      (Fcntl64Cmd.tryFrom (args 1) = some .F_SETFL → Declared OpenFlags.all (as32 (args 2)))
  | .SOCKET =>
    (Domain.tryFrom (args 0)).isSome ∧
      (SocketType.tryFrom (args 1 &&& SOCKET_TYPE_MASK.setWidth 64)).isSome
  | .EPOLL_CTL => (EpollCtl.tryFrom (as32 (args 1)).toInt).isSome
  | .ACCEPT | .ACCEPT4 => Declared (OpenFlags.all ||| SOCKET_TYPE_MASK) (as32 (args 3))
  | .FUTEX => futexOperation (as32 (args 1)) ≠ .UNSUPPORTED
  | syscallId => ∀ i all, syscallId.unwrapped = some (i, all) → Declared all (as32 (args i))

/-- As above; a number that is not that of a call takes no arguments. -/
def KnownArgs (syscallId : Usize) (args : Args) : Prop :=
  ∀ no, SyscallNo.tryFrom syscallId = some no → no.Known args

/-- Decoding does not panic, and when an argument has unknown bits, the call returns an error or
decodes to what it decodes to without them. -/
def Tolerant (syscallId : Usize) (args : Args) : Prop :=
  ∃ r, syscall syscallId args = .ok r ∧
    (¬KnownArgs syscallId args → (∃ e, r = .error e) ∨
      ∃ args', KnownArgs syscallId args' ∧ syscall syscallId args' = .ok r)

variable {syscallId : Usize} {no : SyscallNo} {args args' : Args} {all : BitVec 32} {i : Fin 6}

theorem fromBitsUnwrap_of_declared {word : Usize} (h : Declared all (as32 word)) :
    fromBitsUnwrap all word = .ok ⟨as32 word, h⟩ := by
  rw [fromBitsUnwrap, fromBits_of_declared h]

theorem fromBitsUnwrap_of_not {word : Usize} (h : ¬Declared all (as32 word)) :
    fromBitsUnwrap all word = .error (.unwrapNone .syscall) := by
  rw [fromBitsUnwrap, fromBits_of_not h]

/-- An arm that unwraps its flags does nothing else that may panic. -/
theorem SyscallNo.dispatch_eq_bind (hno : no.unwrapped = some (i, all)) :
    ∃ c : Bitflags all → Dispatched,
      no.dispatch args = fromBitsUnwrap all (args i) >>= fun flags ↦ .ok (c flags) := by
  cases no <;> cases hno <;> exact ⟨_, rfl⟩

/-- An arm whose `unwrap` meets an unknown bit panics. -/
theorem SyscallNo.dispatch_of_not_declared (hno : no.unwrapped = some (i, all))
    (h : ¬Declared all (as32 (args i))) :
    no.dispatch args = .error (.unwrapNone .syscall) := by
  obtain ⟨c, hc⟩ := dispatch_eq_bind hno
  rw [hc, fromBitsUnwrap_of_not h]
  rfl

/-- All other arms decode whatever they are given. -/
theorem SyscallNo.exists_dispatch
    (h : ∀ i all, no.unwrapped = some (i, all) → Declared all (as32 (args i))) :
    ∃ d, no.dispatch args = .ok d := by
  rcases hno : no.unwrapped with _ | ⟨i, all⟩
  · cases no <;> first | exact ⟨_, rfl⟩ | cases hno
  · obtain ⟨c, hc⟩ := dispatch_eq_bind hno
    exact ⟨_, by rw [hc, fromBitsUnwrap_of_declared (h i all hno)]; rfl⟩

/-- What the handlers decode themselves never panics. -/
theorem Call.exists_resolve (c : Call) : ∃ r, c.resolve = .ok r := by
  fun_cases Call.resolve c
  case case1 flags userStack ptid tls ctid =>
    obtain ⟨⟨cloneFlags, signal⟩, hresolve⟩ := exists_resolveCloneFlagsAndSignal flags
    rw [hresolve]
    cases cloneStack userStack <;> exact ⟨_, rfl⟩
  all_goals exact ⟨_, rfl⟩

theorem SyscallNo.decode_of_call {c : Call} (h : no.dispatch args = .ok (.call c)) :
    no.decode args = c.resolve.map (Except.map some) := by
  rw [decode, h]
  rfl

/-- A call that gets through the arms is decoded. -/
theorem SyscallNo.exists_decode_of_dispatch (h : ∃ d, no.dispatch args = .ok d) :
    ∃ r, no.decode args = .ok r := by
  obtain ⟨d, hd⟩ := h
  rw [decode, hd]
  cases d with
  | zero => exact ⟨_, rfl⟩
  | call c =>
    obtain ⟨r, hr⟩ := c.exists_resolve
    exact ⟨r.map some, by simp only [bind, Except.bind, hr]; rfl⟩

theorem SyscallNo.decode_of_not_declared (hno : no.unwrapped = some (i, all))
    (h : ¬Declared all (as32 (args i))) :
    no.decode args = .error (.unwrapNone .syscall) := by
  rw [decode, dispatch_of_not_declared hno h]
  rfl

/-! ### What each call does with unknown bits -/

/-- The call returns an error, or the arguments without their unknown bits decode to the same. -/
def SyscallNo.Refuses (no : SyscallNo) (args : Args) : Prop :=
  (∃ e, no.decode args = .ok (.error e)) ∨
    ∃ args', no.Known args' ∧ no.decode args' = no.decode args

theorem as32_and (word : Usize) (all : BitVec 32) :
    as32 (word &&& all.setWidth 64) = as32 word &&& all := by
  rw [as32, as32, BitVec.setWidth_and, BitVec.setWidth_setWidth_of_le all (by decide),
    BitVec.setWidth_eq]

theorem SyscallNo.clone_refuses (args : Args) : SyscallNo.CLONE.Refuses args := by
  refine .inr ⟨Function.update args 0 (args 0 &&& (CloneFlags.all ||| 0x3f#32).setWidth 64), ?_, ?_⟩
  · rw [Known, Function.update_self, as32_and]
    exact declared_and _ _
  · rw [decode_of_call rfl, decode_of_call rfl]
    simp only [Call.resolve, Function.update_self, resolveCloneFlagsAndSignal_and]
    rfl

theorem SyscallNo.mmap_refuses (args : Args) : SyscallNo.MMAP.Refuses args := by
  have htruncate : ∀ (all : BitVec 32) (word : Usize),
      fromBitsTruncate all (as32 (word &&& all.setWidth 64)) =
        fromBitsTruncate all (as32 word) := by
    intro all word
    apply fromBitsTruncate_congr
    rw [as32_and, BitVec.and_assoc, BitVec.and_self]
  refine .inr ⟨Function.update (Function.update args 2 (args 2 &&& MMAPPROT.all.setWidth 64)) 3
    (args 3 &&& MMAPFlags.all.setWidth 64), ⟨?_, ?_⟩, ?_⟩
  · rw [Function.update_of_ne (by decide), Function.update_self, as32_and]
    exact declared_and _ _
  · rw [Function.update_self, as32_and]
    exact declared_and _ _
  · rw [decode_of_call rfl, decode_of_call rfl]
    simp only [Function.update_self, Function.update_of_ne, ne_eq, Fin.reduceEq, not_false_eq_true,
      htruncate]

theorem SyscallNo.open_refuses (h : ¬SyscallNo.OPEN.Known args) : SyscallNo.OPEN.Refuses args := by
  refine .inl ⟨.ENOENT, ?_⟩
  rw [decode_of_call rfl]
  simp only [Call.resolve, fromBits_of_not h]
  rfl

theorem SyscallNo.fcntl64_refuses (h : ¬SyscallNo.FCNTL64.Known args) :
    SyscallNo.FCNTL64.Refuses args := by
  refine .inl ⟨.EINVAL, ?_⟩
  rw [decode_of_call rfl]
  simp only [Call.resolve]
  cases hcmd : Fcntl64Cmd.tryFrom (args 1) with
  | none => rfl
  | some cmd =>
    have hsetfl : cmd = .F_SETFL ∧ ¬Declared OpenFlags.all (as32 (args 2)) := by
      simpa [Known, hcmd] using h
    obtain ⟨rfl, hdeclared⟩ := hsetfl
    simp only [fromBits_of_not hdeclared]
    rfl

theorem SyscallNo.socket_refuses (h : ¬SyscallNo.SOCKET.Known args) :
    SyscallNo.SOCKET.Refuses args := by
  rw [Refuses, decode_of_call rfl]
  simp only [Call.resolve]
  cases hdomain : Domain.tryFrom (args 0) with
  | none => exact .inl ⟨.EAFNOSUPPORT, rfl⟩
  | some domain =>
    have htype : SocketType.tryFrom (args 1 &&& SOCKET_TYPE_MASK.setWidth 64) = none := by
      simpa [Known, hdomain] using h
    simp only [htype]
    exact .inl ⟨.EINVAL, rfl⟩

theorem SyscallNo.epollCtl_refuses (h : ¬SyscallNo.EPOLL_CTL.Known args) :
    SyscallNo.EPOLL_CTL.Refuses args := by
  have hop : EpollCtl.tryFrom (as32 (args 1)).toInt = none := Option.not_isSome_iff_eq_none.mp h
  refine .inl ⟨.EINVAL, ?_⟩
  rw [decode_of_call rfl]
  simp only [Call.resolve, hop]
  rfl

theorem SyscallNo.futex_refuses (h : ¬SyscallNo.FUTEX.Known args) :
    SyscallNo.FUTEX.Refuses args := by
  have hop : futexOperation (as32 (args 1)) = .UNSUPPORTED := not_not.mp h
  refine .inl ⟨.EINVAL, ?_⟩
  rw [decode_of_call rfl]
  simp only [Call.resolve, hop]
  rfl

/-- An unknown flag of `sys_accept4` makes it as if no flag were given. -/
theorem acceptNonBlock_of_not {flags : BitVec 32}
    (h : ¬Declared (OpenFlags.all ||| SOCKET_TYPE_MASK) flags) :
    acceptNonBlock flags = acceptNonBlock 0 := by
  have hnot : ¬Declared OpenFlags.all (flags &&& ~~~SOCKET_TYPE_MASK) := by
    rwa [Declared, BitVec.not_or, BitVec.and_comm (~~~OpenFlags.all), ← BitVec.and_assoc] at h
  rw [acceptNonBlock, fromBits_of_not hnot]
  rfl

theorem SyscallNo.accept_refuses (hno : no = .ACCEPT ∨ no = .ACCEPT4) (h : ¬no.Known args) :
    no.Refuses args := by
  refine .inr ⟨Function.update args 3 0, ?_, ?_⟩
  · rcases hno with rfl | rfl <;> rw [Known, Function.update_self] <;> exact declared_zero _
  · rcases hno with rfl | rfl <;> rw [decode_of_call rfl, decode_of_call rfl] <;>
      simp only [Call.resolve, Function.update_self, Function.update_of_ne, ne_eq, Fin.reduceEq,
        not_false_eq_true, acceptNonBlock_of_not h] <;> rfl

/-- Every call whose arm gets through refuses unknown bits in one of the two ways. -/
theorem SyscallNo.refuses (h : ∀ i all, no.unwrapped = some (i, all) → Declared all (as32 (args i)))
    (hknown : ¬no.Known args) : no.Refuses args := by
  fun_cases Known no args
  · exact clone_refuses args
  · exact mmap_refuses args
  · exact open_refuses hknown
  · exact fcntl64_refuses hknown
  · exact socket_refuses hknown
  · exact epollCtl_refuses hknown
  · exact accept_refuses (.inl rfl) hknown
  · exact accept_refuses (.inr rfl) hknown
  · exact futex_refuses hknown
  · refine absurd ?_ hknown
    rw [Known] <;> assumption

/-! ### When decoding is tolerant -/

theorem syscall_of_some (h : SyscallNo.tryFrom syscallId = some no) :
    syscall syscallId args = no.decode args := by
  rw [syscall, h]

theorem knownArgs_of_some (h : SyscallNo.tryFrom syscallId = some no) :
    KnownArgs syscallId args ↔ no.Known args := by
  constructor
  · intro hknown
    exact hknown no h
  · intro hknown no' h'
    obtain rfl : no = no' := Option.some.inj (h.symm.trans h')
    exact hknown

/-- A call that gets through its arm is tolerant. -/
theorem tolerant_of_declared (h : SyscallNo.tryFrom syscallId = some no)
    (hdeclared : ∀ i all, no.unwrapped = some (i, all) → Declared all (as32 (args i))) :
    Tolerant syscallId args := by
  obtain ⟨r, hr⟩ := SyscallNo.exists_decode_of_dispatch (SyscallNo.exists_dispatch hdeclared)
  refine ⟨r, (syscall_of_some h).trans hr, fun hknown ↦ ?_⟩
  rw [knownArgs_of_some h] at hknown
  rcases SyscallNo.refuses hdeclared hknown with ⟨e, he⟩ | ⟨args', hargs', heq⟩
  · exact .inl ⟨e, Except.ok.inj (hr.symm.trans he)⟩
  · exact .inr ⟨args', (knownArgs_of_some h).mpr hargs',
      (syscall_of_some h).trans (heq.trans hr)⟩

/-- Decoding is tolerant of every word but those that an arm unwraps: there the kernel panics as
soon as a bit is set that is not declared. -/
theorem tolerant_iff (syscallId : Usize) (args : Args) :
    Tolerant syscallId args ↔
      ∀ no i all, SyscallNo.tryFrom syscallId = some no → no.unwrapped = some (i, all) →
        Declared all (as32 (args i)) := by
  constructor
  · rintro ⟨r, hr, -⟩ no i all hno hunwrapped
    by_contra hdeclared
    rw [syscall_of_some hno, SyscallNo.decode_of_not_declared hunwrapped hdeclared] at hr
    cases hr
  · intro h
    rcases hno : SyscallNo.tryFrom syscallId with _ | no
    · refine ⟨.ok none, by rw [syscall, hno], fun hknown ↦ absurd ?_ hknown⟩
      intro no h'
      rw [hno] at h'
      cases h'
    · exact tolerant_of_declared hno fun i all ↦ h no i all hno

/-- `wait4` with the option `WNOWAIT`, which `WaitFlags` does not declare, panics. -/
theorem wait4_panics :
    ¬∀ syscallId args, Tolerant syscallId args := by
  intro h
  obtain ⟨r, hr, -⟩ := h 260 ![-1, 0, 0x1000000, 0, 0, 0]
  have hpanic : syscall 260 ![-1, 0, 0x1000000, 0, 0, 0] = .error (.unwrapNone .syscall) := rfl
  rw [hpanic] at hr
  cases hr

end Maturin
