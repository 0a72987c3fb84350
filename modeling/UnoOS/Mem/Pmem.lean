import UnoOS.Mem.State

namespace UnoOS.Mem

open UnoOS.Lib

/-! `pmem.c`.  A free page holds the list link in its first word and the
reference count behind it. -/

def refCntAddr (page : UInt64) : Nat := page.toNat + 8

abbrev kernPages : Nat := 1024

/-- `ALLOC_BEGIN`, which the linker script puts behind the kernel image on a
page boundary. -/
structure KernelImage where
  allocBegin : UInt64
  aligned : allocBegin.toNat % 4096 = 0
  base : kernelBase.toNat ≤ allocBegin.toNat
  room : allocBegin.toNat + kernPages * 4096 ≤ allocEnd.toNat

def pmemGetRef (page : UInt64) : MemM UInt32 := do
  return (← readMem).load32 (refCntAddr page)

def pmemAlloc (inKernel : Bool) : MemM UInt64 := do
  let region ← readRegion inKernel
  massert (region.allocable ≠ 0) "There is no empty page."
  let page := region.next
  massert (page ≠ 0) "Failed to allocate physical page!"
  let next := (← readMem).load64 page.toNat
  writeRegion inKernel
    { region with next := next, allocable := region.allocable - 1 }
  updateMem fun m => m.store32 (refCntAddr page) 1
  updateMem fun m => m.memset page.toNat 0 4096
  return page

def pmemFree (page : UInt64) (inKernel : Bool) : MemM Unit := do
  logFree page
  let region ← readRegion inKernel
  massert (region.Contains page) "pmem_free: Invalid page address"
  let refCnt := (← readMem).load32 (refCntAddr page) - 1
  updateMem fun m => m.store32 (refCntAddr page) refCnt
  if refCnt ≠ 0 then
    return
  else
    updateMem fun m => m.memset page.toNat 1 4096
    updateMem fun m => m.store64 page.toNat region.next
    writeRegion inKernel
      { region with next := page, allocable := region.allocable + 1 }

/-- The loop of `free_range`, with the number of pages still to come. -/
def freeRangeLoop (inKernel : Bool) : (pages : Nat) → (p : UInt64) → MemM Unit
  | 0, _ => return
  | pages + 1, p => do
      updateMem fun m => m.store32 (refCntAddr p) 1
      pmemFree p inKernel
      freeRangeLoop inKernel pages (p + pgsize)

def freeRange (begin end_ : UInt64) (inKernel : Bool) : MemM Unit :=
  let p := pgroundup begin
  freeRangeLoop inKernel ((end_.toNat - p.toNat) / 4096) p

def KernelImage.middle (image : KernelImage) : UInt64 :=
  image.allocBegin + UInt64.ofNat kernPages * pgsize

def pmemInit (image : KernelImage) : MemM Unit := do
  writeRegion true
    { begin := image.allocBegin, end_ := image.middle,
      allocable := UInt32.ofNat kernPages, next := 0 }
  freeRange image.allocBegin image.middle true
  writeRegion false
    { begin := image.middle, end_ := allocEnd,
      allocable := ((allocEnd - image.allocBegin) / pgsize -
        UInt64.ofNat kernPages).toUInt32,
      next := 0 }
  freeRange image.middle allocEnd false

end UnoOS.Mem
