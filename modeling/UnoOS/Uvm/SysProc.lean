import UnoOS.Uvm.Uvm

namespace UnoOS.Uvm

open UnoOS.Lib
open UnoOS.Kernel (ProcId)
open UnoOS.Mem

/-! The system calls of `sysproc.c` that change what a process has mapped. -/

/-- What the calls return for -1. -/
abbrev sysFailed : UInt64 := 0xFFFFFFFFFFFFFFFF

def sysBrk (p : ProcId) (newHeapTop : UInt64) : UvmM UInt64 := do
  let space ← readSpace p
  if newHeapTop = 0 then
    return space.heapTop
  else if space.heapTop < newHeapTop then
    let size := newHeapTop - space.heapTop
    let heapTop ← liftMem
      (uvmHeapGrow space.pgtbl space.heapTop size.toUInt32 (pteW ||| pteR ||| pteU))
    writeSpace p { space with heapTop := heapTop }
    return heapTop
  else
    let size := space.heapTop - newHeapTop
    let heapTop ← liftMem (uvmHeapUngrow space.pgtbl space.heapTop size.toUInt32)
    writeSpace p { space with heapTop := heapTop }
    return heapTop

/-- The loop of `sys_mmap` over the regions.  The product has 32 bits. -/
def mmapScan (len : UInt32) : (steps : Nat) → Option MmapId → UvmM (Option UInt64)
  | _, none => return none
  | 0, some _ => Exec.stop .loops
  | steps + 1, some id => do
      let region ← readRegion id
      if len ≤ region.npages * 4096 then
        return some region.begin
      else
        mmapScan len steps region.next

/-- The address that `sys_mmap` is going to return. -/
def mmapAddress (begin : UInt64) (len : UInt32) (first : Option MmapId) :
    UvmM (Option UInt64) :=
  if begin = 0 then mmapScan len nMmap first else return some begin

def sysMmap (p : ProcId) (begin : UInt64) (len : UInt32) : UvmM UInt64 := do
  if len % 4096 ≠ 0 then
    return sysFailed
  else
    let space ← readSpace p
    let sentinel ← deref space.mmap
    let region ← readRegion sentinel
    match ← mmapAddress begin len region.next with
    | none => return sysFailed
    | some ret => do
        uvmMmap p begin (len / 4096) (pteU ||| pteR ||| pteW)
        return ret

def sysMunmap (p : ProcId) (begin : UInt64) (len : UInt32) : UvmM UInt64 := do
  uvmMunmap p begin (len / 4096)
  return 0

end UnoOS.Uvm
