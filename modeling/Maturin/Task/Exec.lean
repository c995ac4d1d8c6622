import Maturin.File.FdManager
import Maturin.Loader.Loader
import Maturin.Memory.Image
import Maturin.Signal.Slot
import Maturin.Task.TimeStat
import Maturin.Trap.Context

/-!
# Another program for a task

`exec` looks whether there is a file with the name, and if there is none it returns `false` and
nothing has changed. But if there is one it first takes from the task its memory, its heap, its
handlers, its times and the files that are closed on `exec`, and only then opens and parses the
file. So an `exec` that fails for any other reason than a missing file leaves a task without a
program.

The package that parses ELF files is a parameter, as are the files. A program that names an
interpreter is loaded by a call of `parse_user_app` for the interpreter, so a program that is its
own interpreter overflows the kernel stack.
-/

open Exec

namespace Maturin

/-! ## Loading by name -/

/-- What the package makes of a file: its class, its machine and the rest. -/
structure ParsedFile where
  sixtyFour : Bool
  machine : ℕ
  elf : ElfFile

/-- The files and the parser. -/
structure AppFiles where
  /-- `check_file_exists` -/
  checkFileExists : String → String → Bool
  /-- `open_file` for reading, and `read_all` of the file, which may panic -/
  readFile : String → String → Option (Except Panic (List UInt8))
  /-- `ElfFile::new` -/
  newElfFile : List UInt8 → Option ParsedFile
  /-- what the kernel finds in the buffer for a new stack -/
  stackData : ByteMem

namespace AppFiles

variable {σ φ F : Type}

/-- `ElfLoader::new` -/
def newLoader (k : AppFiles) (data : List UInt8) :
    EStateM Panic (World σ φ) (Except OSError ElfFile) :=
  match k.newElfFile data with
  | none => throw (.unwrapErr .elfLoaderNew)
  | some file =>
    if !file.sixtyFour then pure (.error .loader_parseElfFailed)
    else if file.machine ≠ 0xF3 then pure (.error .loader_parseElfFailed)
    else pure (.ok file.elf)

/-- The name is that of a shell script. -/
def IsScript (appName : String) : Prop := ".sh".toList <:+ appName.toList

instance (appName : String) : Decidable (IsScript appName) := inferInstanceAs (Decidable (_ <:+ _))

/-- The file to open and its arguments, with `busybox` for a script; `none` is an index out of
bounds. -/
def interpretScript (appDir appName : String) (args : List String) :
    Option (String × String × List String) :=
  if IsScript appName then
    match args with
    | [] => none
    | arg :: rest => some ("./", "busybox", ["busybox", "sh", appDir ++ arg] ++ rest)
  else some (appDir, appName, args)

variable [FrameAllocator σ] [FileStore F φ]

/-- `parse_user_app`, on a kernel stack with room for `depth` calls. -/
def parseUserApp (k : AppFiles) : ℕ → String → String → MemorySet F → List String →
    EStateM Panic (World σ φ) (Except OSError (ℕ × ℕ) × MemorySet F)
  | 0, _, _, _, _ => throw .stackOverflow
  | depth + 1, appDir, appName, vm, args =>
    match interpretScript appDir appName args with
    | none => throw .indexOutOfBounds
    | some (appDir, appName, args) =>
      match k.readFile appDir appName with
      | none => pure (.error .loader_appNotFound, vm)
      | some (.error p) => throw p
      | some (.ok data) => do
        match ← k.newLoader data with
        | .error e => pure (.error e, vm)
        | .ok elf => elf.initVm (k.parseUserApp depth) vm args k.stackData

end AppFiles

/-! ## The call -/

/-- The fields of a task that `exec` reads and writes. -/
structure ExecTask (Γ F : Type) where
  dir : String
  userHeapTop : ℕ
  vm : MemorySet F
  signalHandlers : SignalHandlers
  signalReceivers : SignalReceivers
  time : TimeStat
  fdManager : FdManager Γ
  /-- The first context on the kernel stack -/
  trapCx : TrapContext

/-- Run a program on a state of its own. -/
def runOn {ε σ τ : Type} (c : τ) (x : EStateM ε τ Unit) : EStateM ε σ τ :=
  match x.run c with
  | .ok _ c => pure c
  | .error p _ => throw p

namespace ExecTask

variable {σ φ Γ F : Type} [FrameAllocator σ] [FileStore F φ]

/-- What `exec` does to the task before it looks at the file. -/
def reset (self : ExecTask Γ F) (cloexec : Γ → Bool) (now : ℕ) :
    EStateM Panic (World σ φ) (ExecTask Γ F) := do
  let self := { self with userHeapTop := USER_STACK_OFFSET }
  let vm ← self.vm.clearUserPagesAndSaveKernel
  let self := { self with
    vm
    signalHandlers := self.signalHandlers.clear
    signalReceivers := self.signalReceivers.clear
    time := self.time.clear now }
  let fdManager ← runOn self.fdManager (FdManager.closeCloexecFiles cloexec)
  pure { self with fdManager }

/-- `exec` at the time `now`, with the files that have the flag `CLOEXEC`. -/
def exec (self : ExecTask Γ F) (k : AppFiles) (depth : ℕ) (cloexec : Γ → Bool) (now sstatus : ℕ)
    (appName : String) (args : List String) :
    EStateM Panic (World σ φ) (Bool × ExecTask Γ F) :=
  if !k.checkFileExists self.dir appName then
    pure (false, self)
  else do
    let self ← self.reset cloexec now
    let args := if args.length = 0 then [appName] else args
    let (r, vm) ← k.parseUserApp depth self.dir appName self.vm args
    let self := { self with vm }
    match r with
    | .error _ => pure (false, self)
    | .ok (userEntry, userStack) => do
      let w ← get
      let argc := ByteMem.load 8 (fun x ↦ (vm.readsAt w x).getD 0) userStack
      let argv := wadd userStack 8
      pure (true, { self with
        trapCx := .appExecContext sstatus userEntry userStack argc argv })

/-- Memory, heap top, signals, open files and times are the same. -/
structure Same (t : ExecTask Γ F) (w : World σ φ) (t' : ExecTask Γ F) (w' : World σ φ) : Prop where
  memory : t'.vm.readsAt w' = t.vm.readsAt w
  heapTop : t'.userHeapTop = t.userHeapTop
  handlers : t'.signalHandlers = t.signalHandlers
  mask : t'.signalReceivers.mask = t.signalReceivers.mask
  files : t'.fdManager.files = t.fdManager.files
  time : t'.time = t.time

/-- There is nothing that `exec` resets, apart from the memory. -/
structure Blank (t : ExecTask Γ F) (cloexec : Γ → Bool) (now : ℕ) : Prop where
  heapTop : USER_STACK_OFFSET = t.userHeapTop
  handlers : t.signalHandlers.clear = t.signalHandlers
  mask : 0 = t.signalReceivers.mask
  files : t.fdManager.files.map (Option.filter fun file ↦ !cloexec file) = t.fdManager.files
  time : t.time.clear now = t.time

end ExecTask

/-! ## Programs that can be loaded -/

section succeeds

variable {σ φ F α β : Type} {vm : MemorySet F} {w : World σ φ}

/-- The call returns a result. -/
def Succeeds (x : EStateM Panic (World σ φ) (Except OSError α × MemorySet F)) (w : World σ φ) :
    Prop :=
  ∃ a vm w', x.run w = .ok (.ok a, vm) w'

variable {x : EStateM Panic (World σ φ) (Except OSError β × MemorySet F)}
variable {f : Except OSError β × MemorySet F →
  EStateM Panic (World σ φ) (Except OSError α × MemorySet F)}

theorem exists_of_succeeds_bind (h : Succeeds (x >>= f) w)
    (hf : ∀ err vm, f (.error err, vm) = pure (.error err, vm)) :
    ∃ b vm₁ w₁, x.run w = .ok (.ok b, vm₁) w₁ ∧ Succeeds (f (.ok b, vm₁)) w₁ := by
  obtain ⟨a, vm', w', hrun⟩ := h
  obtain ⟨⟨res, vm₁⟩, w₁, hx, hrest⟩ := exists_of_run_bind hrun
  cases res with
  | error err =>
    rw [hf] at hrest
    cases hrest
  | ok b => exact ⟨b, vm₁, w₁, hx, a, vm', w', hrest⟩

theorem succeeds_bind {b : β} {vm₁ : MemorySet F} {w₁ : World σ φ}
    (hx : x.run w = .ok (.ok b, vm₁) w₁) (h : Succeeds (f (.ok b, vm₁)) w₁) :
    Succeeds (x >>= f) w := by
  obtain ⟨a, vm', w', hrest⟩ := h
  exact ⟨a, vm', w', (run_bind_of_ok hx).trans hrest⟩

end succeeds

variable {σ φ F : Type} [FrameAllocator σ] [FileStore F φ]

namespace ElfFile

variable (elf : ElfFile)

/-- The segments can be mapped, relocated, and followed by a stack with the arguments. -/
def Maps (args : List String) (data : ByteMem) (vm : MemorySet F) (w : World σ φ) : Prop :=
  ∃ vm₁ w₁, (elf.loadSegments elf.programHeaders vm).run w = .ok (.ok (), vm₁) w₁ ∧
  ∃ vm₂ w₂, (elf.relocateDyn vm₁).run w₁ = .ok (.ok (), vm₂) w₂ ∧
  ∃ vm₃ w₃, (elf.relocatePlt vm₂).run w₂ = .ok (.ok (), vm₃) w₃ ∧
    Succeeds (elf.pushStack args data vm₃) w₃

/-- The name of the interpreter is in the file. -/
def InFile (ph : ProgramHeader) : Prop :=
  ph.offset ≤ wadd ph.offset ph.fileSize ∧ wadd ph.offset ph.fileSize ≤ elf.input.length

/-- The path at a place of the file. -/
def pathAt (ph : ProgramHeader) : String := rawPtrToRefStr (elf.input.drop ph.offset)

end ElfFile

/-- The directory and the name of an interpreter, split at the last slash. -/
def splitInterpreter (path : String) : String × String :=
  let name := (path.toList.reverse.takeWhile (· ≠ '/')).reverse
  if '/' ∈ path.toList then
    (String.ofList (path.toList.take (path.toList.length - name.length)), String.ofList name)
  else ("./", path)

namespace AppFiles

variable (k : AppFiles)

/-- The file is a program for this machine. -/
def IsProgram (appDir appName : String) (elf : ElfFile) : Prop :=
  ∃ data, k.readFile appDir appName = some (.ok data) ∧ k.newElfFile data = some ⟨true, 0xF3, elf⟩

/-- The file can be loaded with the arguments: it is a script and there is a `busybox`, or it is a
program without interpreter that can be mapped, or one whose interpreter can be loaded. -/
inductive Loads (vm : MemorySet F) (w : World σ φ) : ℕ → String → String → List String → Prop
  | script {depth : ℕ} {appDir appName arg : String} {rest : List String}
      (hname : IsScript appName)
      (h : Loads vm w depth "./" "busybox" (["busybox", "sh", appDir ++ arg] ++ rest)) :
      Loads vm w depth appDir appName (arg :: rest)
  | image {depth : ℕ} {appDir appName : String} {args : List String} {elf : ElfFile}
      (hname : ¬IsScript appName) (helf : k.IsProgram appDir appName elf)
      (hinterp : elf.programHeaders.find? (fun ph ↦ ph.type = .interp) = none)
      (h : elf.Maps args k.stackData vm w) : Loads vm w (depth + 1) appDir appName args
  | interpreter {depth : ℕ} {appDir appName : String} {args : List String} {elf : ElfFile}
      {ph : ProgramHeader} (hname : ¬IsScript appName) (helf : k.IsProgram appDir appName elf)
      (hinterp : elf.programHeaders.find? (fun ph ↦ ph.type = .interp) = some ph)
      (hfile : elf.InFile ph)
      (h : Loads vm w depth (splitInterpreter (elf.pathAt ph)).1
        (splitInterpreter (elf.pathAt ph)).2 (elf.pathAt ph :: args)) :
      Loads vm w (depth + 1) appDir appName args

end AppFiles

section load

variable {vm : MemorySet F} {w : World σ φ} {elf : ElfFile} {args : List String} {data : ByteMem}
variable {parseUserApp : String → String → MemorySet F → List String →
  EStateM Panic (World σ φ) (Except OSError (ℕ × ℕ) × MemorySet F)}

/-- Without an interpreter the program itself is mapped. -/
theorem ElfFile.succeeds_initVm_iff
    (hinterp : elf.programHeaders.find? (fun ph ↦ ph.type = .interp) = none) :
    Succeeds (elf.initVm parseUserApp vm args data) w ↔ elf.Maps args data vm w := by
  rw [initVm, hinterp, Maps]
  constructor
  · intro h
    obtain ⟨⟨⟩, vm₁, w₁, hload, h⟩ := exists_of_succeeds_bind h fun _ _ ↦ rfl
    obtain ⟨⟨⟩, vm₂, w₂, hdyn, h⟩ := exists_of_succeeds_bind h fun _ _ ↦ rfl
    obtain ⟨⟨⟩, vm₃, w₃, hplt, h⟩ := exists_of_succeeds_bind h fun _ _ ↦ rfl
    exact ⟨vm₁, w₁, hload, vm₂, w₂, hdyn, vm₃, w₃, hplt, h⟩
  · rintro ⟨vm₁, w₁, hload, vm₂, w₂, hdyn, vm₃, w₃, hplt, h⟩
    exact succeeds_bind hload (succeeds_bind hdyn (succeeds_bind hplt h))

/-- With an interpreter it is the interpreter that is loaded. -/
theorem ElfFile.succeeds_initVm_of_interp {ph : ProgramHeader}
    (hinterp : elf.programHeaders.find? (fun ph ↦ ph.type = .interp) = some ph) :
    Succeeds (elf.initVm parseUserApp vm args data) w ↔ elf.InFile ph ∧
      Succeeds (parseUserApp (splitInterpreter (elf.pathAt ph)).1
        (splitInterpreter (elf.pathAt ph)).2 vm (elf.pathAt ph :: args)) w := by
  rw [initVm, hinterp]
  dsimp only
  rw [getData, InFile, splitInterpreter, pathAt]
  by_cases hout : wadd ph.offset ph.fileSize < ph.offset ∨
      wadd ph.offset ph.fileSize > elf.input.length
  · rw [if_pos hout]
    refine iff_of_false ?_ fun h ↦ ?_
    · rintro ⟨a, vm', w', hrun⟩
      cases hrun
    · omega
  · rw [if_neg hout, and_iff_right (by omega)]
    split_ifs
    · rfl
    · rfl

namespace AppFiles

variable {k : AppFiles} {depth : ℕ} {appDir appName : String}

theorem interpretScript_of_not (hname : ¬IsScript appName) :
    interpretScript appDir appName args = some (appDir, appName, args) := if_neg hname

theorem interpretScript_nil (hname : IsScript appName) :
    interpretScript appDir appName [] = none := if_pos hname

theorem interpretScript_cons (hname : IsScript appName) (arg : String) (rest : List String) :
    interpretScript appDir appName (arg :: rest) =
      some ("./", "busybox", ["busybox", "sh", appDir ++ arg] ++ rest) := if_pos hname

/-- A file that is no script is opened and parsed. -/
theorem succeeds_parseUserApp_iff (hname : ¬IsScript appName) :
    Succeeds (k.parseUserApp (depth + 1) appDir appName vm args) w ↔
      ∃ elf, k.IsProgram appDir appName elf ∧
        Succeeds (elf.initVm (k.parseUserApp depth) vm args k.stackData) w := by
  rw [parseUserApp, interpretScript_of_not hname]
  dsimp only
  constructor
  · intro h
    split at h
    · obtain ⟨a, vm', w', hrun⟩ := h
      cases hrun
    · obtain ⟨a, vm', w', hrun⟩ := h
      cases hrun
    · next data hread =>
      rw [newLoader] at h
      cases hparse : k.newElfFile data with
      | none =>
        rw [hparse] at h
        obtain ⟨a, vm', w', hrun⟩ := h
        cases hrun
      | some file =>
        obtain ⟨sixtyFour, machine, elf⟩ := file
        rw [hparse] at h
        dsimp only at h
        split_ifs at h with hclass hmachine
        · obtain ⟨a, vm', w', hrun⟩ := h
          cases hrun
        · obtain ⟨a, vm', w', hrun⟩ := h
          cases hrun
        · -- every other file was refused
          obtain rfl : sixtyFour = true := by simpa using hclass
          obtain rfl : machine = 0xF3 := not_not.mp hmachine
          exact ⟨elf, ⟨data, hread, hparse⟩, h⟩
  · rintro ⟨elf, ⟨data, hread, hparse⟩, h⟩
    rw [hread]
    dsimp only
    rw [newLoader, hparse]
    exact h

/-- A script is given to `busybox`. -/
theorem parseUserApp_script (hname : IsScript appName) (arg : String) (rest : List String) :
    k.parseUserApp depth appDir appName vm (arg :: rest) =
      (k.parseUserApp depth "./" "busybox" vm (["busybox", "sh", appDir ++ arg] ++ rest) :
        EStateM Panic (World σ φ) _) := by
  have hbusybox : ¬IsScript "busybox" := by decide
  cases depth with
  | zero => rfl
  | succ depth =>
    rw [parseUserApp, interpretScript_cons hname, parseUserApp, interpretScript_of_not hbusybox]

theorem not_succeeds_script (hname : IsScript appName) :
    ¬Succeeds (k.parseUserApp depth appDir appName vm []) w := by
  rintro ⟨a, vm', w', hrun⟩
  cases depth with
  | zero => cases hrun
  | succ depth =>
    rw [parseUserApp, interpretScript_nil hname] at hrun
    cases hrun

/-- **The files that are loaded.** -/
theorem loads_iff : k.Loads vm w depth appDir appName args ↔
    Succeeds (k.parseUserApp depth appDir appName vm args) w := by
  constructor
  · intro h
    induction h with
    | script hname _ ih =>
      rw [parseUserApp_script hname]
      exact ih
    | image hname helf hinterp h =>
      refine (succeeds_parseUserApp_iff hname).mpr ⟨_, helf, ?_⟩
      exact (ElfFile.succeeds_initVm_iff hinterp).mpr h
    | interpreter hname helf hinterp hfile _ ih =>
      refine (succeeds_parseUserApp_iff hname).mpr ⟨_, helf, ?_⟩
      exact (ElfFile.succeeds_initVm_of_interp hinterp).mpr ⟨hfile, ih⟩
  · -- The induction is on the room on the kernel stack, which each interpreter takes some of.
    intro h
    induction depth generalizing appDir appName args with
    | zero =>
      obtain ⟨a, vm', w', hrun⟩ := h
      cases hrun
    | succ depth ih =>
      have hprogram : ∀ {appDir appName args}, ¬IsScript appName →
          Succeeds (k.parseUserApp (depth + 1) appDir appName vm args) w →
          k.Loads vm w (depth + 1) appDir appName args := by
        intro appDir appName args hname h
        obtain ⟨elf, helf, h⟩ := (succeeds_parseUserApp_iff hname).mp h
        cases hinterp : elf.programHeaders.find? fun ph ↦ ph.type = .interp with
        | none => exact .image hname helf hinterp ((ElfFile.succeeds_initVm_iff hinterp).mp h)
        | some ph =>
          obtain ⟨hfile, h⟩ := (ElfFile.succeeds_initVm_of_interp hinterp).mp h
          exact .interpreter hname helf hinterp hfile (ih h)
      by_cases hname : IsScript appName
      · cases args with
        | nil => exact absurd h (not_succeeds_script hname)
        | cons arg rest =>
          rw [parseUserApp_script hname] at h
          exact .script hname (hprogram (by decide) h)
      · exact hprogram hname h

end AppFiles

end load

/-! ## All or nothing -/

namespace ExecTask

variable {Γ : Type} {t t' : ExecTask Γ F} {k : AppFiles} {depth now sstatus : ℕ}
variable {cloexec : Γ → Bool} {appName : String} {args : List String} {w w' : World σ φ}

/-- The task without its memory and the rest, and with the memory `vm`. -/
def blanked (t : ExecTask Γ F) (cloexec : Γ → Bool) (now : ℕ) (vm : MemorySet F) : ExecTask Γ F :=
  { t with
    userHeapTop := USER_STACK_OFFSET
    vm
    signalHandlers := t.signalHandlers.clear
    signalReceivers := t.signalReceivers.clear
    time := t.time.clear now
    fdManager :=
      { t.fdManager with
        files := t.fdManager.files.map (Option.filter fun file ↦ !cloexec file) } }

@[simp] theorem blanked_dir (t : ExecTask Γ F) (vm : MemorySet F) :
    (t.blanked cloexec now vm).dir = t.dir := by
  rw [blanked]

@[simp] theorem blanked_vm (t : ExecTask Γ F) (vm : MemorySet F) :
    (t.blanked cloexec now vm).vm = vm := by
  rw [blanked]

omit [FrameAllocator σ] [FileStore F φ] in
/-- What is the same afterwards had been blank before. -/
theorem same_blanked_iff (t : ExecTask Γ F) (cloexec : Γ → Bool) (now : ℕ) (w w' : World σ φ)
    (vm vm' : MemorySet F) : t.Same w { t.blanked cloexec now vm with vm := vm' } w' ↔
      t.Blank cloexec now ∧ vm'.readsAt w' = t.vm.readsAt w := by
  constructor
  · rintro ⟨hmemory, hheap, hhandlers, hmask, hfiles, htime⟩
    exact ⟨⟨hheap, hhandlers, hmask, hfiles, htime⟩, hmemory⟩
  · rintro ⟨⟨hheap, hhandlers, hmask, hfiles, htime⟩, hmemory⟩
    exact ⟨hmemory, hheap, hhandlers, hmask, hfiles, htime⟩

/-- What is reset, depending on how clearing the memory ends. -/
theorem run_reset : (t.reset cloexec now).run w =
    match (t.vm.clearUserPagesAndSaveKernel).run w with
    | .ok vm w' => .ok (t.blanked cloexec now vm) w'
    | .error p w' => .error p w' := by
  rw [reset]
  cases hclear : t.vm.clearUserPagesAndSaveKernel.run w with
  | error p w' => exact run_bind_of_error hclear
  | ok vm w' => exact run_bind_of_ok hclear

/-- The arguments of the new program; its name if there are none. -/
def argsOf (appName : String) (args : List String) : List String :=
  if args.length = 0 then [appName] else args

/-- There is a file, and in the memory without the user's pages it can be loaded. -/
def CanLoad (t : ExecTask Γ F) (k : AppFiles) (depth : ℕ) (appName : String) (args : List String)
    (w : World σ φ) : Prop :=
  ∃ vm w₁, t.vm.clearUserPagesAndSaveKernel.run w = .ok vm w₁ ∧
    k.Loads vm w₁ depth t.dir appName (argsOf appName args)

/-- The file cannot be loaded, and the memory afterwards is what it was before it was cleared. -/
def FailsQuietly (t : ExecTask Γ F) (k : AppFiles) (depth : ℕ) (appName : String)
    (args : List String) (w : World σ φ) : Prop :=
  ∃ vm w₁, t.vm.clearUserPagesAndSaveKernel.run w = .ok vm w₁ ∧
    ∃ err vm' w', (k.parseUserApp depth t.dir appName vm (argsOf appName args)).run w₁ =
      .ok (.error err, vm') w' ∧ vm'.readsAt w' = t.vm.readsAt w

/-- The header of a 32-bit ELF file for RISC-V, without sections and segments. -/
def header32 : List UInt8 :=
  [0x7F, 0x45, 0x4C, 0x46, 1, 1, 1, 0] ++ List.replicate 8 0 ++ [2, 0, 0xF3, 0, 1, 0, 0, 0] ++
    List.replicate 28 0

/-- The file `a` has the header, and the file `b` is empty. The parser knows headers only. -/
def twoFiles : AppFiles where
  checkFileExists _ name := name = "a" || name = "b"
  readFile _ name := if name = "a" then some (.ok header32) else if name = "b" then some (.ok [])
    else none
  newElfFile data :=
    if data.take 4 = [0x7F, 0x45, 0x4C, 0x46] ∧ 52 ≤ data.length then
      some
        { sixtyFour := data.getD 4 0 = 2
          machine := (data.getD 18 0).toNat + 256 * (data.getD 19 0).toNat
          elf :=
            { input := data
              programHeaders := []
              sections := []
              entryPoint := 0
              phOffset := 0
              phEntrySize := 0
              phCount := 0 } }
    else none
  stackData _ := 0

/-- A task with a heap of a page. -/
def withHeap (vm : MemorySet Empty) : ExecTask Unit Empty where
  dir := "./"
  userHeapTop := USER_STACK_OFFSET + PAGE_SIZE
  vm
  signalHandlers := .new
  signalReceivers := .new
  time := .new 1 0
  fdManager :=
    { files := [], fdAllocator := BitAlloc.DEFAULT, limit := FD_LIMIT_ORIGIN, umask := 0 }
  trapCx := .appInitContext 0 0x10000 USER_STACK_OFFSET

/-- Execute a file in a new task, for which `P` is asked of the result. -/
def execNew (appName : String) :
    EStateM Panic (World Bitmap Unit) (Bool × ExecTask Unit Empty) := do
  let vm ← MemorySet.newMemorySetForTask PHYS_MEMORY_OFFSET
  (withHeap vm).exec twoFiles 3 (fun _ ↦ false) 1000 0 appName []

end ExecTask

end Maturin
