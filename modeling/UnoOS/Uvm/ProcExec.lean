import UnoOS.Fs.Layout
import UnoOS.Uvm.UserText
import UnoOS.Uvm.ValidAddr

namespace UnoOS.Uvm

open UnoOS.Lib
open UnoOS.Fs (Stop nAddrs1 nAddrs2 nAddrs3 entryPerBlock blockSize)
open UnoOS.Kernel (ProcId)
open UnoOS.Mem

/-! `exec.c` and `sys_exec`: a process gets the memory that a file describes. -/

abbrev maxFileSize : Nat :=
  (nAddrs1 + nAddrs2 * entryPerBlock + nAddrs3 * entryPerBlock * entryPerBlock) * blockSize

/-- The bytes in the blocks that `inode_locate_block` looks up in `addrs[]`: of the double
tables it reaches the first 256 blocks. -/
abbrev reachedSize : Nat :=
  (nAddrs1 + nAddrs2 * entryPerBlock + entryPerBlock) * blockSize

structure ExecFile where
  bytes : List UInt8
  fits : bytes.length ≤ maxFileSize
  /-- What a read comes to that looks a block up behind `addrs[]`: some bytes, or the
  message of a failed assertion. -/
  behind : (offset len : Nat) → Except String (Nat → UInt8)

/-- `inode_read_data`: the returned count and the bytes stored at `dst`. -/
def ExecFile.readData (file : ExecFile) (offset len : UInt32) :
    Except String (UInt32 × List UInt8) :=
  let size := UInt32.ofNat file.bytes.length
  if size < offset ∨ offset + len < offset then
    .ok (0xFFFFFFFF, [])
  else
    let total := if size < len + offset then size - offset else len
    if total = 0 ∨ offset.toNat + total.toNat ≤ reachedSize then
      .ok (total, (file.bytes.drop offset.toNat).take total.toNat)
    else
      (file.behind offset.toNat total.toNat).map fun found =>
        (total, (List.range total.toNat).map found)

def inodeReadData (ip : ExecFile) (offset len : UInt32) : MemM (UInt32 × List UInt8) :=
  match ip.readData offset len with
  | .ok data => return data
  | .error message => Exec.stop (.panic message)

def buffer (bytes : List UInt8) : Memory := fun i => bytes.getD i 0

structure ElfHeader where
  magic : UInt32
  entry : UInt64
  phOff : UInt64
  phEntNum : UInt16

abbrev elfHeaderSize : UInt32 := 64

def elfHeader (m : Memory) : ElfHeader where
  magic := m.load32 0
  entry := m.load64 24
  phOff := m.load64 32
  phEntNum := UInt16.ofNat (m.number 56 2)

abbrev elfMagic : UInt32 := 0x464C457F

structure ProgramHeader where
  type : UInt32
  off : UInt64
  va : UInt64
  fileSize : UInt64
  memSize : UInt64

abbrev programHeaderSize : UInt32 := 56

def programHeader (m : Memory) : ProgramHeader where
  type := m.load32 0
  off := m.load64 8
  va := m.load64 16
  fileSize := m.load64 32
  memSize := m.load64 40

abbrev elfProgLoad : UInt32 := 1

abbrev elfMaxargs : Nat := 32

/-- The loop of `load_segment`, with the number of turns still to come.  A file ends long
before `off` could wrap. -/
def loadSegmentLoop (file : ExecFile) (offset : UInt32) (pgtbl va : UInt64)
    (size : UInt32) : (turns : Nat) → (off : UInt32) → MemM Int
  | 0, _ => return 0
  | turns + 1, off => do
      match ← vmGetpte pgtbl (va + off.toUInt64) false with
      | none => Exec.stop .nullPointer
      | some pte => do
          let pa := pteToPa ((← readMem).load64 pte)
          massert (pa ≠ 0) "load_segment: addr should exist"
          let readLen := if size - off < 4096 then size - off else 4096
          let data ← inodeReadData file (offset + off) readLen
          updateMem fun m => m.write pa.toNat data.2.length (buffer data.2)
          if data.1 ≠ readLen then
            return -1
          else
            loadSegmentLoop file offset pgtbl va size turns (off + 4096)

def loadSegment (file : ExecFile) (offset : UInt32) (pgtbl va : UInt64)
    (size : UInt32) : MemM Int := do
  massert (va % pgsize = 0) "load_segment: va must be page aligned"
  loadSegmentLoop file offset pgtbl va size ((size.toNat + 4095) / 4096) 0

/-- What `proc_exec` does with one program header; nothing is left for `goto bad`. -/
def loadProgram (file : ExecFile) (pgtbl : UInt64) (ph : ProgramHeader)
    (heapTop : UInt64) : MemM (Option UInt64) := do
  if ph.type ≠ elfProgLoad then
    return some heapTop
  else if ph.memSize < ph.fileSize then
    return none
  else if ph.va + ph.memSize < ph.va then
    return none
  else if ph.va % pgsize ≠ 0 then
    return none
  else
    let newHeapTop ← uvmHeapGrow pgtbl heapTop (ph.va + ph.memSize - heapTop).toUInt32
      (pteR ||| pteX)
    if newHeapTop ≠ ph.va + ph.memSize then
      return none
    else
      let loaded ← loadSegment file ph.off.toUInt32 pgtbl ph.va ph.fileSize.toUInt32
      if loaded < 0 then
        return none
      else
        return some newHeapTop

/-- The loop of `proc_exec` over the program headers.  Each turn reads one from the file,
which has no more than `turns` of them. -/
def loadPrograms (file : ExecFile) (eh : ElfHeader) (pgtbl : UInt64) :
    (turns : Nat) → (off : UInt32) → (heapTop : UInt64) → MemM (Option UInt64)
  | 0, _, _ => Exec.stop .loops
  | turns + 1, off, heapTop => do
      if off.toUInt64 < eh.phOff + eh.phEntNum.toUInt64 * programHeaderSize.toUInt64 then
        let data ← inodeReadData file off programHeaderSize
        if data.1 ≠ programHeaderSize then
          return none
        else
          match ← loadProgram file pgtbl (programHeader (buffer data.2)) heapTop with
          | none => return none
          | some newHeapTop =>
              loadPrograms file eh pgtbl turns (off + programHeaderSize) newHeapTop
      else
        return some heapTop

/-- The part of `proc_exec` between `inode_lock` and `inode_unlock_free`: the entry
point and the end of the last segment. -/
def loadImage (file : ExecFile) (pgtbl : UInt64) : MemM (Option (UInt64 × UInt64)) := do
  let data ← inodeReadData file 0 elfHeaderSize
  if data.1 ≠ elfHeaderSize then
    return none
  else
    let eh := elfHeader (buffer data.2)
    if eh.magic ≠ elfMagic then
      return none
    else
      match ← loadPrograms file eh pgtbl (file.bytes.length / 56 + 2) eh.phOff.toUInt32
          userVmemStart with
      | none => return none
      | some heapTop => return some (eh.entry, heapTop)

def spBelow (sp : UInt64) (len : UInt32) : UInt64 :=
  let sp := sp - len.toUInt64
  sp - sp % 16

def argBytes (arg : List UInt8) : Nat → UInt8 := buffer arg

/-- The loop of `proc_exec` over the arguments, with `sp_list` as far as it is set. -/
def pushArgs (pgtbl : UInt64) : (argv : List (List UInt8)) → (spList : List UInt64) →
    (sp : UInt64) → MemM (Option (List UInt64 × UInt64))
  | [], spList, sp => return some (spList, sp)
  | arg :: argv, spList, sp => do
      if elfMaxargs ≤ spList.length then
        return none
      else
        let argLen := UInt32.ofNat (arg.length + 1)
        let sp := spBelow sp argLen
        if sp < trapframe - pgsize then
          return none
        else
          uvmCopyout pgtbl sp (argBytes arg) argLen
          pushArgs pgtbl argv (spList ++ [sp]) sp

/-- The bytes of `sp_list` and the 0 behind its entries. -/
def spListBytes (spList : List UInt64) : Nat → UInt8 :=
  fun i => Memory.digit (spList.getD (i / 8) 0).toNat (i % 8)

/-- What `proc_exec` puts on the new stack: `argc` and the stack pointer. -/
def pushArgv (pgtbl : UInt64) (argv : List (List UInt8)) :
    MemM (Option (Nat × UInt64)) := do
  match ← pushArgs pgtbl argv [] trapframe with
  | none => return none
  | some (spList, sp) =>
      let argLen := UInt32.ofNat ((spList.length + 1) * 8)
      let sp := spBelow sp argLen
      if sp < trapframe - pgsize then
        return none
      else
        uvmCopyout pgtbl sp (spListBytes spList) argLen
        return some (spList.length, sp)

abbrev tfA1 : Nat := 120

def execBad (pgtbl : UInt64) : UvmM Int := do
  liftMem (uvmDestroyPgtbl 3 pgtbl)
  Exec.stop (.panic "exec fail")

/-- The loop of `proc_exec` that gives the regions of the old list back. -/
def freeRegions : (steps : Nat) → Option MmapId → UvmM Unit
  | _, none => return
  | 0, some _ => Exec.stop .loops
  | steps + 1, some node => do
      let region ← readRegion node
      mmapRegionFree node
      freeRegions steps region.next

/-- The end of `proc_exec`: the new image takes the place of the old one. -/
def switchImage (p : ProcId) (old : Space) (pgtbl tf entry sp : UInt64) : UvmM Unit := do
  liftMem (updateMem fun m => m.store64 (tf.toNat + tfA1) sp)
  liftMem (updateMem fun m => m.store64 (tf.toNat + tfEpc) entry)
  liftMem (updateMem fun m => m.store64 (tf.toNat + tfSp) sp)
  liftMem (uvmDestroyPgtbl 3 old.pgtbl)
  freeRegions nMmap old.mmap
  let mmap ← mmapRegionAlloc false
  let region ← readRegion mmap
  writeRegion mmap { region with begin := mmapBegin, npages := 0 }
  let next ← mmapRegionAlloc true
  let region ← readRegion mmap
  writeRegion mmap { region with next := some next }
  let space ← readSpace p
  writeSpace p { space with pgtbl := pgtbl, tf := tf, mmap := some mmap }

/-- The start of `proc_exec`: the new trap frame and its table. -/
def newTable (old : Space) : UvmM (UInt64 × UInt64) := do
  let tf ← liftMem (pmemAlloc false)
  liftMem (updateMem fun m => m.memcpy tf.toNat old.tf.toNat 4096)
  let pgtbl ← liftMem (procPgtblInit (← get).trampolinePage tf)
  return (tf, pgtbl)

/-- Code, data and an empty stack in the new table; the result is the entry point. -/
def buildImage (p : ProcId) (old : Space) (file : ExecFile) (pgtbl : UInt64) :
    UvmM (Option UInt64) := do
  match ← liftMem (loadImage file pgtbl) with
  | none => return none
  | some (entry, heapTop) => do
      let page ← liftMem (pmemAlloc false)
      writeSpace p { old with heapTop := pgroundup heapTop, ustackPages := 1 }
      liftMem (vmMappages pgtbl (trapframe - pgsize) page pgsize
        (pteR ||| pteW ||| pteU))
      return some entry

/-- `proc_exec` for the file that its path leads to, if there is one. -/
def procExec (p : ProcId) (ip : Option ExecFile) (argv : List (List UInt8)) :
    UvmM Int := do
  let old ← readSpace p
  let (tf, pgtbl) ← newTable old
  match ip with
  | none => return -1
  | some file => do
      match ← buildImage p old file pgtbl with
      | none => execBad pgtbl
      | some entry => do
          match ← liftMem (pushArgv pgtbl argv) with
          | none => execBad pgtbl
          | some (argc, sp) => do
              switchImage p old pgtbl tf entry sp
              return (argc : Int)

end UnoOS.Uvm
