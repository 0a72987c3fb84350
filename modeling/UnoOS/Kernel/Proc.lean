import UnoOS.Kernel.File

namespace UnoOS.Kernel

open UnoOS.Lib
open UnoOS.Fs

/-! Processes (`proc.c`), as far as files and directories are concerned, and the
system calls of `sysfile.c`.  Pages, page tables and the scheduler are left out:
one process runs at a time, and a process that would sleep does not return. -/

def allocPid : KernelM UInt32 := do
  let pid := (← get).globalPid
  kassert (pid < 0x80000000) "alloc_pid: overflow"
  modify fun k => { k with globalPid := pid + 1 }
  return pid

def procAlloc : KernelM ProcId := do
  let pid ← allocPid
  let procs := (← get).procs
  match (List.finRange nProc).find? fun p => (procs p).state = .unused with
  | some p =>
      writeProc p { procs p with pid := pid }
      return p
  | none => Exec.stop (.panic "proc_alloc: no proc available")

/-- The loop of `proc_free` over `filelist`, whose entries stay. -/
def closeFiles : List (Option FileId) → KernelM Unit
  | [] => pure ()
  | none :: rest => closeFiles rest
  | some f :: rest => do
      fileClose f
      closeFiles rest

def procFree (p : ProcId) : KernelM Unit := do
  let proc ← readProc p
  writeProc p { proc with pid := 0xFFFFFFFF, state := .unused, parent := none }
  closeFiles ((List.finRange filePerProc).map proc.filelist)

/-- The loop of `proc_fork` over `filelist`.  Where the parent has no file, the
child keeps what its slot held before. -/
def copyFiles (parent child : ProcId) : List (Fin filePerProc) → KernelM Unit
  | [] => pure ()
  | fd :: rest => do
      match (← readProc parent).filelist fd with
      | none => copyFiles parent child rest
      | some f =>
          let file ← fileDup f
          let proc ← readProc child
          writeProc child { proc with
            filelist := Function.update proc.filelist fd (some file) }
          copyFiles parent child rest

def procFork (p : ProcId) : KernelM UInt32 := do
  let child ← procAlloc
  copyFiles p child (List.finRange filePerProc)
  let cwd ← deref (← readProc p).cwd
  let cwd ← liftFs (inodeDup cwd)
  let proc ← readProc child
  writeProc child { proc with
    cwd := some cwd, state := .runnable, parent := some p }
  return proc.pid

def procReparent (parent : ProcId) : KernelM Unit :=
  modify fun k => { k with
    procs := fun q =>
      if (k.procs q).parent = some parent then
        { k.procs q with parent := k.proczero }
      else k.procs q }

def procExit (p : ProcId) : KernelM Unit := do
  let proc ← readProc p
  kassert (proc.pid ≠ 1) "proc_exit: proczero exited!"
  let _ ← deref proc.parent
  procReparent p
  let proc ← readProc p
  writeProc p { proc with state := .zombie }

/-- `proc_wait`: the pid of the child, or -1. -/
def procWait (p : ProcId) : KernelM UInt32 := do
  let procs := (← get).procs
  let children := (List.finRange nProc).filter fun q =>
    (procs q).parent = some p
  match children.find? fun q => (procs q).state = .zombie with
  | some q =>
      procFree q
      return (procs q).pid
  | none =>
      Exec.require (children = []) .sleeps
      return 0xFFFFFFFF

/-- `fs_init`.  The record it copies to `sb` is the one `mkfs` writes. -/
def fsInit : FsM Unit := do
  let buf ← bufRead 0
  assertThat (buf.word 0 = sb.magic)
    "fs_init: invalid super block magic number"
  assertThat (buf.word 4 = sb.blockSize) "fs_init: invalid super block size"

def consolePath : List UInt8 := [99, 111, 110, 115, 111, 108, 101]

/-- `proc_make_first`, and `fork_return` in the first process. -/
def bootFirst (junk : Junk) : KernelM Unit := do
  let p ← procAlloc
  let proc ← readProc p
  writeProc p { proc with parent := none, state := .running }
  modify fun k => { k with proczero := some p }
  liftFs fsInit
  -- the path is absolute: no working directory is needed
  let root ← liftFs (pathToInode 0 junk [slash])
  let cwd ← deref root
  let proc ← readProc p
  writeProc p { proc with cwd := some cwd }
  let f ← fileCreateDev cwd junk consolePath devConsole 0
  let dup ← fileDup f
  let proc ← readProc p
  writeProc p { proc with
    filelist := Function.update (Function.update proc.filelist 0 (some f))
      1 (some dup) }

/-! System calls of process `p`; `false` stands for the return value -1. -/

def argFd (p : ProcId) (fd : UInt32) :
    KernelM (Option (Fin filePerProc × FileId)) := do
  if h : fd.toNat < filePerProc then
    match (← readProc p).filelist ⟨fd.toNat, h⟩ with
    | none => return none
    | some f => return some (⟨fd.toNat, h⟩, f)
  else
    return none

def fdAlloc (p : ProcId) (f : FileId) : KernelM (Option (Fin filePerProc)) := do
  let proc ← readProc p
  match (List.finRange filePerProc).find? fun fd =>
      proc.filelist fd = none with
  | none => return none
  | some fd =>
      writeProc p { proc with
        filelist := Function.update proc.filelist fd (some f) }
      return some fd

/-- The inode behind `cwd`, for a path that may be relative. -/
def procCwd (p : ProcId) : KernelM Slot := do
  deref (← readProc p).cwd

def sysOpen (p : ProcId) (junk : Junk) (path : List UInt8)
    (openMode : UInt32) : KernelM (Option (Fin filePerProc)) := do
  match ← fileOpen (← procCwd p) junk path openMode with
  | none => return none
  | some f =>
      let fd ← fdAlloc p f
      if fd = none then
        fileClose f
      return fd

def sysClose (p : ProcId) (fd : UInt32) : KernelM Bool := do
  match ← argFd p fd with
  | none => return false
  | some (fd, f) =>
      let proc ← readProc p
      writeProc p { proc with
        filelist := Function.update proc.filelist fd none }
      fileClose f
      return true

/-- `sys_dup`: the reference is counted even if there is no descriptor left. -/
def sysDup (p : ProcId) (fd : UInt32) :
    KernelM (Option (Fin filePerProc)) := do
  match ← argFd p fd with
  | none => return none
  | some (_, f) =>
      let newFd ← fdAlloc p f
      let _ ← fileDup f
      return newFd

/-- `filelist[fd] = file` if there is a descriptor. -/
def storeFd (p : ProcId) (f : FileId) : Option (Fin filePerProc) → KernelM Unit
  | none => pure ()
  | some fd => do
      let proc ← readProc p
      writeProc p { proc with
        filelist := Function.update proc.filelist fd (some f) }

/-- `sys_pipe`, less the copies to user memory.  If there is no descriptor for
the writing end, the one for the reading end keeps the file that is closed. -/
def sysPipe (p : ProcId) (page : PipeId) : KernelM UInt32 := do
  let (read, write) ← pipeAlloc page
  let readfd ← fdAlloc p read
  let writefd ← fdAlloc p write
  if readfd = none ∨ writefd = none then
    storeFd p read readfd
    fileClose read
    fileClose write
    return pipeError
  else
    return 0

def sysMkdir (p : ProcId) (junk : Junk) (path : List UInt8) :
    KernelM Unit := do
  let inode ← liftFs (pathCreateInode (← procCwd p) junk path ftDir 0 0)
  liftFs (inodeUnlockFree (← lockedInode inode))

def sysChdir (p : ProcId) (junk : Junk) (path : List UInt8) :
    KernelM Bool := do
  let (changed, cwd) ← liftFs (dirChange (← procCwd p) junk path)
  let proc ← readProc p
  writeProc p { proc with cwd := some cwd }
  return changed

def sysLink (p : ProcId) (junk : Junk) (oldPath newPath : List UInt8) :
    KernelM Bool := do
  liftFs (pathLink (← procCwd p) junk oldPath newPath)

def sysUnlink (p : ProcId) (junk : Junk) (path : List UInt8) :
    KernelM Bool := do
  liftFs (pathUnlink (← procCwd p) junk path)

end UnoOS.Kernel
