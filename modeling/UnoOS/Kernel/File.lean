import UnoOS.Kernel.State

namespace UnoOS.Kernel

open UnoOS.Lib
open UnoOS.Fs

/-! Open files (`file.c`) and the pipes behind some of them (`pipe.c`). -/

def modeCreate : UInt32 := 1

def modeRead : UInt32 := 2

def modeWrite : UInt32 := 4

abbrev nDev : Nat := 10

def devConsole : UInt16 := 1

def fileAlloc : KernelM FileId := do
  let ftable := (← get).ftable
  match (List.finRange nFile).find? fun f => (ftable f).ref = 0 with
  | some f =>
      writeFile f { ftable f with ref := 1 }
      return f
  | none => Exec.stop (.panic "file_alloc: no free file block")

def lockedInode : Option Slot → KernelM Slot
  | some ip => pure ip
  | none =>
      Exec.stop (.panic "inode_unlock: invalid inode or not holding lock")

/-- `file_create_dev`: the reference to the inode is dropped before the file
points to it. -/
def fileCreateDev (cwd : Slot) (junk : Junk) (path : List UInt8)
    (major minor : UInt16) : KernelM FileId := do
  let devInode ← liftFs (pathCreateInode cwd junk path ftDevice major minor)
  let ip ← lockedInode devInode
  liftFs (inodeUnlockFree ip)
  let f ← fileAlloc
  let file ← readFile f
  writeFile f { file with
    ip := some ip, major := major, readable := true, writable := true,
    type := fdDevice }
  return f

def majorTooLarge (major : UInt16) : Prop :=
  nDev ≤ major.toNat ∧ major < 0x8000

instance (major : UInt16) : Decidable (majorTooLarge major) :=
  inferInstanceAs (Decidable (_ ∧ _))

def openInode (cwd : Slot) (junk : Junk) (path : List UInt8)
    (openMode : UInt32) : FsM (Option Slot) := do
  if openMode &&& modeCreate ≠ 0 then
    pathCreateInode cwd junk path ftFile 0 0
  else
    match ← pathToInode cwd junk path with
    | none => return none
    | some ip =>
        inodeLock ip
        return some ip

def fileOpen (cwd : Slot) (junk : Junk) (path : List UInt8)
    (openMode : UInt32) : KernelM (Option FileId) := do
  match ← liftFs (openInode cwd junk path openMode) with
  | none => return none
  | some ip =>
      let node ← liftFs (readSlot ip)
      kassert (¬(node.diskInode.type = ftDevice ∧
        majorTooLarge node.diskInode.major)) "Invalid device file"
      let f ← fileAlloc
      let file ← readFile f
      let type := node.diskInode.type
      -- a regular file keeps the offset its entry had before
      if type = fdFile then
        writeFile f { file with
          type := type, major := node.diskInode.major, ip := some ip }
      else
        writeFile f { file with type := type, offset := 0, ip := some ip }
      liftFs (inodeUnlock ip)
      let file ← readFile f
      writeFile f { file with
        readable := openMode &&& modeRead ≠ 0
        writable := openMode &&& modeWrite ≠ 0 }
      return some f

/-- `pipe_alloc`, with the page that `pmem_alloc` returns: the end for reading
and the end for writing. -/
def pipeAlloc (page : PipeId) : KernelM (FileId × FileId) := do
  modify fun k => k.setPipe page ⟨0, 0, 0, true, true, false⟩
  let f1 ← fileAlloc
  let f2 ← fileAlloc
  let file ← readFile f1
  writeFile f1 { file with
    type := fdPipe, writable := false, readable := true, pipe := some page }
  let file ← readFile f2
  writeFile f2 { file with
    type := fdPipe, writable := true, readable := false, pipe := some page }
  return (f1, f2)

/-- `pipe_close`, less the calls of `proc_wakeup` and what `pmem_free` makes of the page. -/
def pipeClose (p : PipeId) (writable : Bool) : KernelM Unit :=
  modify fun k =>
    let pipe := k.pipes p
    let pipe := if writable then { pipe with writeopen := false }
      else { pipe with readopen := false }
    k.setPipe p { pipe with
      freed := pipe.freed || (!pipe.readopen && !pipe.writeopen) }

def fileClose (f : FileId) : KernelM Unit := do
  let file ← readFile f
  kassert (0 < file.ref) "file_read: file has already been closed"
  if file.ref = 1 then
    writeFile f { file with ref := 0, type := fdUnused }
    if file.type = fdPipe then
      pipeClose (← deref file.pipe) file.writable
    else
      liftFs (inodeFree (← deref file.ip))
  else
    writeFile f { file with ref := file.ref - 1 }

inductive Whence where
  | set
  | add
  | sub
  /-- A value that is none of the three. -/
  | other
  deriving DecidableEq

def fileLseek (f : FileId) (offset : UInt32) (flags : Whence) :
    KernelM UInt32 := do
  let file ← readFile f
  kassert (file.type = fdFile)
    "file_lseek: type must be FD_FILE, received file id: %d"
  let offset ← match flags with
    | .set => pure offset
    | .add => pure (file.offset + offset)
    | .sub => pure (file.offset - offset)
    | .other => Exec.stop (.panic "file_lseek: invalid flags %d")
  writeFile f { file with offset := offset }
  return offset

def fileDup (f : FileId) : KernelM FileId := do
  let file ← readFile f
  kassert (0 < file.ref) "file_dup: ref"
  writeFile f { file with ref := file.ref + 1 }
  return f

/-- The loop of `pipe_write`.  A writer that finds the pipe full sleeps. -/
def pipeWriteLoop (p : PipeId) (src : Nat → UInt8) :
    (fuel i : Nat) → KernelM UInt32
  | 0, i => pure (UInt32.ofNat i)
  | fuel + 1, i => do
      let pipe := (← get).pipes p
      if (pipe.nwrite - pipe.nread).toNat = pipeSize then
        if pipe.readopen then Exec.stop .sleeps else pure pipeError
      else
        modify fun k => k.setPipe p { pipe with
          data := pipe.data.patch (pipe.nwrite.toNat % pipeSize) 1
            fun _ => src i
          nwrite := pipe.nwrite + 1 }
        pipeWriteLoop p src fuel (i + 1)

def pipeWrite (pipe : Option PipeId) (len : UInt32) (src : Nat → UInt8) :
    KernelM UInt32 :=
  match pipe with
  | none => Exec.stop (.panic "pipe_write: Invalid pipe pointer")
  | some p => pipeWriteLoop p src len.toNat 0

def pipeReadLoop (p : PipeId) : (fuel : Nat) → KernelM (List UInt8)
  | 0 => pure []
  | fuel + 1 => do
      let pipe := (← get).pipes p
      if pipe.nread = pipe.nwrite then
        pure []
      else
        modify fun k => k.setPipe p { pipe with nread := pipe.nread + 1 }
        let rest ← pipeReadLoop p fuel
        return pipe.data.get (pipe.nread.toNat % pipeSize) :: rest

/-- `pipe_read`: the count and the bytes.  A reader that finds the pipe empty
and still open for writing sleeps. -/
def pipeRead (pipe : Option PipeId) (len : UInt32) :
    KernelM (UInt32 × List UInt8) :=
  match pipe with
  | none => Exec.stop (.panic "pipe_read: Invalid pipe pointer")
  | some p => do
      if len = 0 then
        return (0, [])
      else
        let pipe := (← get).pipes p
        Exec.require (¬(pipe.nread = pipe.nwrite ∧ pipe.writeopen)) .sleeps
        let bytes ← pipeReadLoop p len.toNat
        return (UInt32.ofNat bytes.length, bytes)

/-- `devlist`, the entry points of the device classes. -/
structure Devices where
  read : UInt16 → (len : UInt32) → KernelM (UInt32 × List UInt8)
  write : UInt16 → (len : UInt32) → (src : Nat → UInt8) → KernelM UInt32

def fileRead (devlist : Devices) (f : FileId) (len : UInt32) :
    KernelM (UInt32 × List UInt8) := do
  let file ← readFile f
  if file.readable = false then
    return (0, [])
  else if file.type = fdFile ∨ file.type = fdDir then
    let ip ← deref file.ip
    liftFs (inodeLock ip)
    let (count, bytes) ← liftFs (inodeReadData ip file.offset len)
    if count ≠ 0xFFFFFFFF then
      let _ ← fileLseek f count .add
    liftFs (inodeUnlock ip)
    return (count, bytes)
  else if file.type = fdDevice then
    kassert (file.major.toNat < nDev) "file_read: invalid device"
    devlist.read file.major len
  else if file.type = fdPipe then
    pipeRead file.pipe len
  else
    Exec.stop (.panic "file_read: unknown or unsupported file type %d")

def fileWrite (devlist : Devices) (f : FileId) (len : UInt32)
    (src : Nat → UInt8) : KernelM UInt32 := do
  let file ← readFile f
  if file.writable = false then
    return 0
  else if file.type = fdFile ∨ file.type = fdDir then
    let ip ← deref file.ip
    liftFs (inodeLock ip)
    let count ← liftFs (inodeWriteData ip file.offset len src)
    if count ≠ 0xFFFFFFFF then
      let _ ← fileLseek f count .add
    liftFs (inodeUnlock ip)
    return count
  else if file.type = fdDevice then
    kassert (file.major.toNat < nDev) "file_write: invalid device"
    devlist.write file.major len src
  else if file.type = fdPipe then
    pipeWrite file.pipe len src
  else
    Exec.stop (.panic "file_write: unknown or unsupported file type %d")

end UnoOS.Kernel
