import UnoOS.Fs.Dir

namespace UnoOS.Kernel

open UnoOS.Lib
open UnoOS.Fs

/-! Memory of the kernel above the file system: open files, pipes and
processes. -/

abbrev nFile : Nat := 32

abbrev FileId := Fin nFile

abbrev pipeSize : Nat := 500

/-- The value `pipe_write` returns on a pipe without reader. -/
def pipeError : UInt32 := 512

structure Pipe where
  data : Bytes pipeSize
  nread : UInt32
  nwrite : UInt32
  readopen : Bool
  writeopen : Bool
  /-- The page was passed to `pmem_free`. -/
  freed : Bool

inductive SectionEnd where
  /-- In `proc_sleep`, with the counter of the loop. -/
  | sleeps (i : UInt32)
  | returns (value : UInt32)

abbrev PipeId := Nat

def fdUnused : UInt16 := 0

def fdDir : UInt16 := 1

def fdFile : UInt16 := 2

def fdDevice : UInt16 := 3

def fdPipe : UInt16 := 4

structure File where
  type : UInt16
  readable : Bool
  writable : Bool
  ref : UInt32
  major : UInt16
  offset : UInt32
  ip : Option Slot
  pipe : Option PipeId

def File.zero : File where
  type := fdUnused
  readable := false
  writable := false
  ref := 0
  major := 0
  offset := 0
  ip := none
  pipe := none

abbrev nProc : Nat := 64

abbrev ProcId := Fin nProc

abbrev filePerProc : Nat := 10

instance neZero_10 : NeZero 10 := ⟨by decide⟩

inductive ProcState where
  | unused
  | runnable
  | running
  | sleeping
  | zombie
  deriving DecidableEq

structure Proc where
  pid : UInt32
  state : ProcState
  parent : Option ProcId
  cwd : Option Slot
  filelist : Fin filePerProc → Option FileId

def Proc.free : Proc where
  pid := 0xFFFFFFFF
  state := .unused
  parent := none
  cwd := none
  filelist := fun _ => none

structure KernelState where
  fs : FsState
  ftable : FileId → File
  pipes : PipeId → Pipe
  procs : ProcId → Proc
  globalPid : UInt32
  proczero : Option ProcId

abbrev KernelM := Exec KernelState Stop

namespace KernelState

def setFile (k : KernelState) (f : FileId) (file : File) : KernelState :=
  { k with ftable := Function.update k.ftable f file }

def setPipe (k : KernelState) (p : PipeId) (pipe : Pipe) : KernelState :=
  { k with pipes := Function.update k.pipes p pipe }

def setProc (k : KernelState) (p : ProcId) (proc : Proc) : KernelState :=
  { k with procs := Function.update k.procs p proc }

/-- The kernel before the first process runs, over given disk contents. -/
def booted (disk : Disk) : KernelState where
  fs := .booted disk
  ftable := fun _ => File.zero
  pipes := fun _ => ⟨0, 0, 0, false, false, false⟩
  procs := fun _ => Proc.free
  globalPid := 1
  proczero := none

@[simp] theorem setFile_fs (k : KernelState) (f : FileId) (file : File) :
    (k.setFile f file).fs = k.fs := rfl

@[simp] theorem setFile_procs (k : KernelState) (f : FileId) (file : File) :
    (k.setFile f file).procs = k.procs := rfl

@[simp] theorem setFile_ftable (k : KernelState) (f : FileId) (file : File) :
    (k.setFile f file).ftable = Function.update k.ftable f file := rfl

@[simp] theorem setPipe_fs (k : KernelState) (p : PipeId) (pipe : Pipe) :
    (k.setPipe p pipe).fs = k.fs := rfl

@[simp] theorem setPipe_ftable (k : KernelState) (p : PipeId) (pipe : Pipe) :
    (k.setPipe p pipe).ftable = k.ftable := rfl

@[simp] theorem setPipe_procs (k : KernelState) (p : PipeId) (pipe : Pipe) :
    (k.setPipe p pipe).procs = k.procs := rfl

@[simp] theorem setProc_fs (k : KernelState) (p : ProcId) (proc : Proc) :
    (k.setProc p proc).fs = k.fs := rfl

@[simp] theorem setProc_ftable (k : KernelState) (p : ProcId) (proc : Proc) :
    (k.setProc p proc).ftable = k.ftable := rfl

@[simp] theorem setProc_procs (k : KernelState) (p : ProcId) (proc : Proc) :
    (k.setProc p proc).procs = Function.update k.procs p proc := rfl

end KernelState

section

variable {α β : Type}

def liftFs (m : FsM α) : KernelM α := fun k =>
  match m k.fs with
  | .ok (value, fs) => .ok (value, { k with fs := fs })
  | .error reason => .error reason

theorem liftFs_eq_ok {m : FsM α} {k k' : KernelState} {value : α} :
    liftFs m k = .ok (value, k') ↔
      ∃ fs, m k.fs = .ok (value, fs) ∧ k' = { k with fs := fs } := by
  unfold liftFs
  cases hm : m k.fs with
  | error reason => simp
  | ok pair =>
      simp only [Except.ok.injEq, Prod.mk.injEq]
      constructor
      · rintro ⟨rfl, rfl⟩
        exact ⟨pair.2, rfl, rfl⟩
      · rintro ⟨fs, rfl, rfl⟩
        exact ⟨rfl, rfl⟩

theorem liftFs_bind_eq_ok {m : FsM α} {f : α → KernelM β} {k : KernelState}
    {result : β × KernelState} :
    (liftFs m >>= f) k = .ok result ↔
      ∃ value fs, m k.fs = .ok (value, fs) ∧
        f value { k with fs := fs } = .ok result := by
  obtain ⟨value, final⟩ := result
  rw [Exec.bind_eq_ok]
  constructor
  · rintro ⟨middle, k', hm, hf⟩
    obtain ⟨fs, hfs, rfl⟩ := liftFs_eq_ok.mp hm
    exact ⟨middle, fs, hfs, hf⟩
  · rintro ⟨middle, fs, hfs, hf⟩
    exact ⟨middle, _, liftFs_eq_ok.mpr ⟨fs, hfs, rfl⟩, hf⟩

end

def kassert (condition : Prop) [Decidable condition] (message : String) :
    KernelM Unit :=
  Exec.require condition (.panic message)

def readFile (f : FileId) : KernelM File := do
  return (← get).ftable f

def writeFile (f : FileId) (file : File) : KernelM Unit :=
  modify fun k => k.setFile f file

def readProc (p : ProcId) : KernelM Proc := do
  return (← get).procs p

def writeProc (p : ProcId) (proc : Proc) : KernelM Unit :=
  modify fun k => k.setProc p proc

/-- What a pointer names, if it is not null. -/
def deref {α : Type} : Option α → KernelM α
  | some x => pure x
  | none => Exec.stop .nullPointer

section

variable {α : Type}

theorem readFile_bind (f : FileId) (g : File → KernelM α) (k : KernelState) :
    (readFile f >>= g) k = g (k.ftable f) k := rfl

theorem writeFile_bind (f : FileId) (file : File) (g : Unit → KernelM α)
    (k : KernelState) :
    (writeFile f file >>= g) k = g () (k.setFile f file) := rfl

theorem readProc_bind (p : ProcId) (g : Proc → KernelM α) (k : KernelState) :
    (readProc p >>= g) k = g (k.procs p) k := rfl

theorem writeProc_bind (p : ProcId) (proc : Proc) (g : Unit → KernelM α)
    (k : KernelState) :
    (writeProc p proc >>= g) k = g () (k.setProc p proc) := rfl

theorem kassert_bind_eq_ok {condition : Prop} [Decidable condition]
    {message : String} {g : Unit → KernelM α} {k : KernelState}
    {result : α × KernelState} :
    (kassert condition message >>= g) k = .ok result ↔
      condition ∧ g () k = .ok result :=
  Exec.require_bind_eq_ok

theorem deref_bind_eq_ok {β : Type} {pointer : Option β} {g : β → KernelM α}
    {k : KernelState} {result : α × KernelState} :
    (deref pointer >>= g) k = .ok result ↔
      ∃ x, pointer = some x ∧ g x k = .ok result := by
  cases pointer with
  | none =>
      simp only [reduceCtorEq, false_and, exists_false, iff_false]
      intro h
      cases h
  | some x =>
      simp only [Option.some.injEq, exists_eq_left']
      rfl

end

end UnoOS.Kernel
