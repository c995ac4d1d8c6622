import Mathlib.Tactic.TypeStar

/-!
# Errors and panics

`OSError` is what a kernel function returns to its caller; a `Panic` stops the kernel. A panic
records where it happened, since some results are about particular `unwrap`s.
-/

namespace Maturin

/-- The errors of `error.rs` that the modelled functions return. -/
inductive OSError
  | pageTable_virtNotFound
  | pageTable_frameAllocFailed
  | pageTable_pageAlreadyMapped
  | pageTable_pageNotMapped
  | vmArea_invalidRange
  | vmArea_vmSizeNotEqualToPmSize
  | pageFaultHandler_accessDenied
  | pageFaultHandler_trapAtValidPage
  | pageFaultHandler_unhandled
  | pmArea_outOfRange
  | pmArea_invalidRange
  | pmArea_splitFailed
  | pmAreaLazy_releaseNotAllocatedPage
  | memory_runOutOfMemory
  | memorySet_userMmapIntersectWithKernel
  | memorySet_invalidRange
  | memorySet_areaNotMapped
  | fdManager_noAvailableFd
  | fdManager_fdNotFound
  | loader_appNotFound
  | loader_parseElfFailed
  | loader_invalidSection
  deriving DecidableEq, Repr

/-- The error numbers of `syscall/error.rs` that the modelled system calls return. -/
inductive ErrorNo
  | EINVAL
  | EFAULT
  | ENOENT
  | EMFILE
  | EBADF
  | EAGAIN
  | EEXIST
  | EISDIR
  | ERANGE
  | EAFNOSUPPORT
  | ECONNREFUSED
  | ENOMEM
  | ESPIPE
  | ESRCH
  deriving DecidableEq, Repr

/-- The functions whose body holds an `unwrap`. -/
inductive UnwrapSite
  /-- `pt.set_flags(..).unwrap()` in `VmArea::modify_area_flags` -/
  | modifyAreaFlags
  /-- `modify_area_flags(..).unwrap()` in `Segment::modify` -/
  | segmentModify
  /-- `unmap_area(..).unwrap()` in `Segment::remove` -/
  | segmentRemove
  /-- `pma.split(..).unwrap()` in `Segment::split` -/
  | splitPma
  /-- `VmArea::new(..).unwrap()` in `Segment::split` -/
  | splitArea
  /-- `frames[idx].as_ref().unwrap()` in `PmAreaLazy::sync_frame_with_file` -/
  | syncFrame
  /-- `get_frame(..)?.unwrap()` in `VmArea::copy_to_new_area_with_data` -/
  | copyArea
  /-- `PageTable::new().unwrap()` in `MemorySet::new_user` -/
  | newUser
  /-- `PmAreaLazy::new(..).unwrap()` in `MemorySet::push_with_backend` -/
  | pushPma
  /-- `VmArea::new(..).unwrap()` in `MemorySet::push_with_backend` -/
  | pushArea
  /-- `map_area(..).unwrap()` in `MemorySet::push_with_backend` and `MemorySet::push` -/
  | pushMapArea
  /-- the `unwrap` of the range map's answer in `push_with_backend` and `push` -/
  | pushRange
  /-- `fd_manager.push(..).unwrap()` in `FdManager::new` -/
  | newFdManager
  /-- `Frame::new().unwrap()` in `VirtFileInner::write_inner` -/
  | writeInner
  /-- `copy_as_fork().unwrap()` in `TaskControlBlock::from_clone` -/
  | fromClone
  /-- `from_bits(..).unwrap()` in the arms of `syscall` -/
  | syscall
  /-- `remove_file(..).unwrap()` in `sys_fcntl64` -/
  | sysFcntl64
  /-- `SignalNo::try_from(..).unwrap()` in `resolve_clone_flags_and_signal` -/
  | resolveCloneFlagsAndSignal
  /-- `ElfFile::new(..).unwrap()` in `ElfLoader::new` -/
  | elfLoaderNew
  /-- `new_dir.remove(..).unwrap()` in `rename_or_move` -/
  | renameOrMove
  deriving DecidableEq, Repr

/-- The ways in which the modelled functions panic. -/
inductive Panic
  /-- an `unwrap` of an error -/
  | unwrap (site : UnwrapSite) (e : OSError)
  /-- an `unwrap` of `None` -/
  | unwrapNone (site : UnwrapSite)
  /-- an `unwrap` of an error of a package -/
  | unwrapErr (site : UnwrapSite)
  /-- an index past the end of a vector -/
  | indexOutOfBounds
  /-- a `copy_from_slice` between slices of different lengths -/
  | lengthMismatch
  /-- an arithmetic overflow in a build that checks for it -/
  | overflow
  /-- a failing `assert!` -/
  | assertFailed
  /-- a page fault of the kernel itself, for which `kernel_trap_handler` panics -/
  | kernelTrap
  /-- a `panic!` in `ElfLoader::init_vm`, for a relocation that it cannot make -/
  | relocation
  /-- a call too many for the kernel stack -/
  | stackOverflow
  deriving DecidableEq, Repr

/-- Is it an `unwrap` of tearing down or re-protecting memory, which relies on every frame being
mapped? -/
def Panic.isTeardown : Panic → Bool
  | .unwrap .modifyAreaFlags _ | .unwrap .segmentModify _ | .unwrap .segmentRemove _ => true
  | _ => false

end Maturin
