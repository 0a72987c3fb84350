import UnoOS.Mem.PageTable
import UnoOS.Uvm.Uvm

namespace UnoOS.Uvm

open UnoOS.Lib
open UnoOS.Fs (Stop)
open UnoOS.Kernel (ProcId nProc)
open UnoOS.Mem

/-! Page faults (`trap_user.c`), processes (`proc.c`) and system calls
(`sysproc.c`), as far as user memory is concerned. -/

/-! Trap frames. -/

abbrev trapframeSize : Nat := 288

abbrev tfEpc : Nat := 24

abbrev tfSp : Nat := 48

abbrev tfA0 : Nat := 112

/-- The registers that `user_vector` and `trap_user_handler` leave in the trap
frame. -/
def saveFrame (p : ProcId) (frame : Nat → UInt8) : UvmM Unit := do
  let space ← readSpace p
  liftMem (updateMem fun m => m.write space.tf.toNat trapframeSize frame)

/-! Page faults. -/

def isCowpage (pg va : UInt64) : MemM Int := do
  if vaMax ≤ va then
    return -1
  else
    match ← vmGetpte pg va false with
    | none => return 0
    | some pte =>
        let pte := (← readMem).load64 pte
        if pteValid pte then
          return if pte &&& pteCow ≠ 0 then 1 else 0
        else
          return 0

/-- `handle_cow` behind its first test of the count, where it makes a copy. -/
def cowCopy (pg va : UInt64) (pte : Nat) (pa flags : UInt64) : MemM UInt64 := do
  let newPage ← pmemAlloc false
  if newPage = 0 then
    return 0
  else
    updateMem fun m => m.memcpy newPage.toNat pa.toNat 4096
    updateMem fun m => m.store64 pte (m.load64 pte &&& ~~~pteV)
    vmMappages pg va newPage pgsize ((flags ||| pteW) &&& ~~~pteCow)
    pmemFree pa false
    return newPage

def handleCow (pg va : UInt64) : MemM UInt64 := do
  if va % pgsize ≠ 0 then
    return 0
  else
    match ← vmGetpte pg va false with
    | none => Exec.stop (.panic "handle_cow: pte is NULL")
    | some pte => do
        let old := (← readMem).load64 pte
        if (← pmemGetRef (pteToPa old)) = 1 then
          updateMem fun m => m.store64 pte ((old ||| pteW) &&& ~~~pteCow)
          return pteToPa old
        else
          cowCopy pg va pte (pteToPa old) (pteFlags old)

def handlePageFault (pg va : UInt64) : MemM UInt64 := do
  massert (va ≤ vaMax) "handle_page_fault: the va is invalid"
  let newPage ← pmemAlloc false
  updateMem fun m => m.memset newPage.toNat 0 4096
  vmMappages pg (pgrounddown va) newPage pgsize (pteW ||| pteU ||| pteR)
  return newPage

/-- The branch of `trap_user_handler` for load and store page faults. -/
def handleFault (pg stval : UInt64) : MemM Unit := do
  if (← isCowpage pg stval) ≠ 0 then
    let _ ← handleCow pg (pgrounddown stval)
  else
    let _ ← handlePageFault pg stval

/-- `trap_user_handler` at a page fault. -/
def pageFault (p : ProcId) (frame : Nat → UInt8) (stval : UInt64) :
    UvmM Unit := do
  saveFrame p frame
  let space ← readSpace p
  liftMem (handleFault space.pgtbl stval)

/-! User code. -/

def storeFrame (m : Memory) (pgtbl va : UInt64) : Option UInt64 :=
  (translate m pgtbl va).bind fun pte =>
    if va < vaMax ∧ pte &&& pteU ≠ 0 ∧ pte &&& pteW ≠ 0 then some (pteToPa pte)
    else none

/-- A byte stored by user code, after the page fault if there is one. -/
def userStore (p : ProcId) (frame : Nat → UInt8) (va : UInt64) (byte : UInt8) :
    UvmM Unit := do
  let st ← get
  let pgtbl := (st.procs p).pgtbl
  if storeFrame st.mem.mem pgtbl va = none then
    pageFault p frame va
  match storeFrame (← get).mem.mem pgtbl va with
  | none => Exec.stop .loops
  | some pa =>
      liftMem (updateMem fun m =>
        m.write (pa.toNat + va.toNat % 4096) 1 fun _ => byte)

/-! Processes. -/

def procPgtblInit (trampolinePage tf : UInt64) : MemM UInt64 := do
  let pgtbl ← pmemAlloc true
  updateMem fun m => m.memset pgtbl.toNat 0 4096
  vmMappages pgtbl trampoline trampolinePage pgsize (pteX ||| pteR)
  vmMappages pgtbl trapframe tf pgsize (pteW ||| pteR)
  return pgtbl

def procAlloc : UvmM ProcId := do
  let st ← get
  match (List.finRange nProc).find? fun p => (st.procs p).state = .unused with
  | none => Exec.stop (.panic "proc_alloc: no proc available")
  | some p => do
      let tf ← liftMem (pmemAlloc false)
      let pgtbl ← liftMem (procPgtblInit st.trampolinePage tf)
      let space ← readSpace p
      writeSpace p { space with
        tf := tf
        ustackPages := userStackInitialPageCount.toUInt64
        pgtbl := pgtbl }
      return p

/-- The loop of `proc_make_first` over the pages of the stack. -/
def mapStack (pgtbl : UInt64) : List Nat → MemM Unit
  | [] => return
  | i :: rest => do
      let page ← pmemAlloc false
      vmMappages pgtbl
        (pgrounddown (userStackBottom - UInt64.ofNat (i + 1) * pgsize)) page pgsize
        (pteW ||| pteR ||| pteU)
      mapStack pgtbl rest

def loadInitcode (pgtbl : UInt64) (initcode : List UInt8) : MemM Unit := do
  massert (initcode.length ≤ 4096) "proc_make_first: initcode too big\n"
  let page ← pmemAlloc false
  vmMappages pgtbl userVmemStart page pgsize (pteU ||| pteR ||| pteX ||| pteW)
  updateMem fun m => m.write page.toNat initcode.length fun i => initcode.getD i 0

def procMakeFirst (initcode : List UInt8) : UvmM ProcId := do
  let first ← procAlloc
  let space ← readSpace first
  liftMem (mapStack space.pgtbl (List.range userStackInitialPageCount.toNat))
  liftMem (loadInitcode space.pgtbl initcode)
  liftMem (updateMem fun m => m.store64 (space.tf.toNat + tfEpc) userVmemStart)
  liftMem (updateMem fun m => m.store64 (space.tf.toNat + tfSp) userStackBottom)
  let mmap ← mmapRegionAlloc false
  let region ← readRegion mmap
  writeRegion mmap { region with begin := mmapBegin, npages := 0 }
  let next ← mmapRegionAlloc true
  let region ← readRegion mmap
  writeRegion mmap { region with next := some next }
  writeSpace first { space with
    heapTop := userVmemStart + pgsize
    mmap := some mmap
    state := .runnable }
  return first

/-- The loop of `proc_fork` over the regions of the parent. -/
def copyRegions : (steps : Nat) → (new : MmapId) → Option MmapId → UvmM Unit
  | _, _, none => return
  | 0, _, some _ => Exec.stop .loops
  | steps + 1, new, some id => do
      let region ← readRegion id
      let newRegion ← readRegion new
      writeRegion new { newRegion with
        begin := region.begin
        npages := region.npages }
      let region ← readRegion id
      match region.next with
      | none =>
          let newRegion ← readRegion new
          writeRegion new { newRegion with next := none }
      | some _ => do
          let other ← mmapRegionAlloc false
          let newRegion ← readRegion new
          writeRegion new { newRegion with next := some other }
          let region ← readRegion id
          copyRegions steps other region.next

def procFork (p : ProcId) : UvmM ProcId := do
  let child ← procAlloc
  let parent ← readSpace p
  let space ← readSpace child
  liftMem (updateMem fun m => m.memcpy space.tf.toNat parent.tf.toNat trapframeSize)
  liftMem (updateMem fun m => m.store64 (space.tf.toNat + tfA0) 0)
  uvmCopyPgtbl parent.pgtbl space.pgtbl parent.heapTop parent.ustackPages.toUInt32
    parent.mmap
  let mmap ← mmapRegionAlloc false
  copyRegions nMmap mmap parent.mmap
  writeSpace child { space with
    mmap := some mmap
    heapTop := parent.heapTop
    ustackPages := parent.ustackPages
    state := .runnable }
  return child

end UnoOS.Uvm
