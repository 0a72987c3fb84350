import UnoOS.Uvm.State

namespace UnoOS.Uvm

open UnoOS.Lib
open UnoOS.Fs (Stop)
open UnoOS.Kernel (ProcId)
open UnoOS.Mem

/-! `uvm.c`.  Walks along a list of regions have as many steps as there are
regions; a longer one goes in a circle. -/

def copyPage (new va pa flags : UInt64) : MemM Unit := do
  let page ← pmemAlloc false
  updateMem fun m => m.memcpy page.toNat pa.toNat 4096
  vmMappages new va page pgsize flags

def cowFlags (flags : UInt64) : UInt64 := (flags ||| pteCow) &&& ~~~pteW

/-- The loop of `copy_range`, with the number of turns still to come.  At an
address above `VA_MAX` the walk stops, long before `va` could wrap. -/
def copyRangeLoop (old new : UInt64) : (turns : Nat) → (va : UInt64) → MemM Unit
  | 0, _ => return
  | turns + 1, va => do
      match ← vmGetpte old va false with
      | none => Exec.stop (.panic
          "uvm_copy_pgtbl: pte == NULL.\n begin: %p,end %p")
      | some pte => do
          let value := (← readMem).load64 pte
          massert (pteValid value) "uvm_copy_pgtbl: pte not valid"
          let pa := pteToPa value
          let flags := pteFlags value
          if flags &&& pteW ≠ 0 then
            updateMem fun m => m.store64 pte (paToPte pa ||| cowFlags flags)
            copyPage new va pa (cowFlags flags)
            copyRangeLoop old new turns (va + pgsize)
          else
            copyPage new va pa flags
            copyRangeLoop old new turns (va + pgsize)

def copyRange (old new begin end_ : UInt64) : MemM Unit :=
  copyRangeLoop old new ((end_.toNat - begin.toNat + 4095) / 4096) begin

def gapEnd (regions : MmapId → MmapRegion) (id : MmapId) : UInt64 :=
  match (regions id).next with
  | none => mmapEnd
  | some next => (regions next).begin

/-- The loop of `uvm_copy_pgtbl` over the regions. -/
def copyGaps (old new : UInt64) : (steps : Nat) → Option MmapId → UvmM Unit
  | _, none => return
  | 0, some _ => Exec.stop .loops
  | steps + 1, some id => do
      let regions := (← get).regions
      liftMem (copyRange old new (regions id).end_ (gapEnd regions id))
      copyGaps old new steps (regions id).next

def uvmCopyPgtbl (old new heapTop : UInt64) (ustackPages : UInt32)
    (mmap : Option MmapId) : UvmM Unit := do
  liftMem (copyRange old new userVmemStart heapTop)
  liftMem (copyRange old new
    (userStackBottom - (ustackPages * 4096).toUInt64) userStackBottom)
  copyGaps old new nMmap mmap

def mmapMerge (mmap1 mmap2 : MmapId) (keepMmap1 : Bool) : UvmM Unit := do
  let region1 ← readRegion mmap1
  let region2 ← readRegion mmap2
  uassert (region1.end_ = region2.begin) "mmap_merge: check fail"
  if keepMmap1 then
    writeRegion mmap1 { region1 with npages := region1.npages + region2.npages }
    mmapRegionFree mmap2
  else
    writeRegion mmap2 { region2 with
      begin := region2.begin - (region1.npages * 4096).toUInt64
      npages := region2.npages + region1.npages }
    mmapRegionFree mmap1

/-- The loop of `uvm_mmap` over the pages. -/
def mapNewPages (pgtbl perm : UInt64) : (pages : Nat) → (va : UInt64) → MemM Unit
  | 0, _ => return
  | pages + 1, va => do
      let page ← pmemAlloc false
      vmMappages pgtbl va page pgsize perm
      mapNewPages pgtbl perm pages (va + pgsize)

/-- The four ways in which `uvm_mmap` takes `[begin, end)` out of a region. -/
def takeFromRegion (prev id : MmapId) (begin end_ : UInt64) : UvmM Unit := do
  let region ← readRegion id
  let prevNpages := ((begin - region.begin) / pgsize).toUInt32
  let nextNpages := ((region.end_ - end_) / pgsize).toUInt32
  uassert (nextNpages < 0x80000000)
    "uvm_mmap: memory space insufficient:\n%d page(s) not allocated!"
  if prevNpages ≠ 0 ∧ nextNpages ≠ 0 then
    let new ← mmapRegionAlloc false
    let region ← readRegion id
    writeRegion id { region with npages := prevNpages }
    let newRegion ← readRegion new
    let region ← readRegion id
    writeRegion new { newRegion with
      begin := end_
      npages := nextNpages
      next := region.next }
    let region ← readRegion id
    writeRegion id { region with next := some new }
  else if prevNpages = 0 ∧ nextNpages ≠ 0 then
    writeRegion id { region with begin := end_, npages := nextNpages }
  else if prevNpages ≠ 0 ∧ nextNpages = 0 then
    writeRegion id { region with npages := prevNpages }
  else
    let prevRegion ← readRegion prev
    writeRegion prev { prevRegion with next := region.next }
    mmapRegionFree id

/-- The search of `uvm_mmap`, and what it does when it has found a region. -/
def mmapSearch (pgtbl begin end_ : UInt64) (npages : UInt32) (perm : UInt64) :
    (steps : Nat) → (prev : MmapId) → Option MmapId → UvmM Unit
  | _, _, none =>
      if begin = 0 then Exec.stop (.panic
        "uvm_mmap: no sequential mmap region to hold %d pages\n")
      else Exec.stop (.panic
        "uvm_mmap: region not found\nbegin:%p,npages:%d\n")
  | 0, _, some _ => Exec.stop .loops
  | steps + 1, prev, some id => do
      let region ← readRegion id
      if (region.begin ≤ begin ∧ begin ≤ region.end_) ∨
          (begin = 0 ∧ npages ≤ region.npages) then
        let first := if begin = 0 then region.begin else begin
        let last := if begin = 0 then end_ + region.begin else end_
        takeFromRegion prev id first last
        liftMem (mapNewPages pgtbl perm npages.toNat first)
      else
        mmapSearch pgtbl begin end_ npages perm steps id region.next

def uvmMmap (p : ProcId) (begin : UInt64) (npages : UInt32) (perm : UInt64) :
    UvmM Unit := do
  let end_ := begin + (npages * 4096).toUInt64
  if npages = 0 then
    return
  else
    uassert (begin % pgsize = 0) "uvm_mmap: begin not aligned"
    uassert (begin = 0 ∨ (mmapBegin ≤ begin ∧ end_ ≤ mmapEnd))
      "uvm_mmap: out of range. Given range:\nbegin=%p, end=%p"
    let space ← readSpace p
    let prev ← deref space.mmap
    let prevRegion ← readRegion prev
    mmapSearch space.pgtbl begin end_ npages perm nMmap prev prevRegion.next

/-- The search of `uvm_munmap` for the place of a new region. -/
def munmapInsert (new : MmapId) (begin end_ : UInt64) :
    (steps : Nat) → (prev : MmapId) → Option MmapId → UvmM Unit
  | _, prev, none => do
      let prevRegion ← readRegion prev
      writeRegion prev { prevRegion with next := some new }
      if begin = prevRegion.end_ then
        mmapMerge prev new false
  | 0, _, some _ => Exec.stop .loops
  | steps + 1, prev, some next => do
      let prevRegion ← readRegion prev
      let nextRegion ← readRegion next
      if prevRegion.end_ ≤ begin ∧ end_ ≤ nextRegion.begin then
        if begin = prevRegion.end_ ∧ prevRegion.npages ≠ 0 then
          mmapMerge prev new true
          if end_ = nextRegion.begin then
            let prevRegion ← readRegion prev
            let nextRegion ← readRegion next
            writeRegion prev { prevRegion with next := nextRegion.next }
            mmapMerge prev next true
        else if end_ = nextRegion.begin then
          mmapMerge new next false
        else
          let prevRegion ← readRegion prev
          writeRegion prev { prevRegion with next := some new }
          let newRegion ← readRegion new
          writeRegion new { newRegion with next := some next }
      else
        munmapInsert new begin end_ steps next nextRegion.next

def uvmMunmap (p : ProcId) (begin : UInt64) (npages : UInt32) : UvmM Unit := do
  let end_ := begin + (npages * 4096).toUInt64
  if npages = 0 then
    return
  else
    uassert (begin % pgsize = 0) "uvm_munmap: begin not aligned"
    uassert (mmapBegin ≤ begin ∧ end_ ≤ mmapEnd)
      "uvm_munmap: out of range. Given range:\nbegin=%p, end=%p"
    let new ← mmapRegionAlloc false
    let newRegion ← readRegion new
    writeRegion new { newRegion with begin := begin, npages := npages, next := none }
    let space ← readSpace p
    let prev ← deref space.mmap
    let prevRegion ← readRegion prev
    munmapInsert new begin end_ nMmap prev prevRegion.next
    liftMem (vmUnmappages space.pgtbl begin (npages * 4096).toUInt64 true)

def heapGrowLoop (pgtbl flags : UInt64) : (turns : Nat) → (ptr : UInt64) → MemM Unit
  | 0, _ => return
  | turns + 1, ptr => do
      let pg ← pmemAlloc false
      massert (pg ≠ 0) "uvm_heap_grow failed"
      vmMappages pgtbl ptr pg pgsize (flags ||| pteU)
      updateMem fun m => m.memset pg.toNat 0 4096
      heapGrowLoop pgtbl flags turns (ptr + pgsize)

def uvmHeapGrow (pgtbl heapTop : UInt64) (len : UInt32) (flags : UInt64) :
    MemM UInt64 := do
  let newHeapTop := heapTop + len.toUInt64
  heapGrowLoop pgtbl flags ((newHeapTop.toNat - heapTop.toNat + 4095) / 4096)
    heapTop
  return newHeapTop

def heapUngrowLoop (pgtbl : UInt64) : (turns : Nat) → (ptr : UInt64) → MemM Unit
  | 0, _ => return
  | turns + 1, ptr => do
      vmUnmappages pgtbl (ptr - pgsize) pgsize true
      heapUngrowLoop pgtbl turns (ptr - pgsize)

def uvmHeapUngrow (pgtbl heapTop : UInt64) (len : UInt32) : MemM UInt64 := do
  let newHeapTop := heapTop - len.toUInt64
  let alignedNewHeapTop := pgroundup newHeapTop
  let ptr := pgroundup heapTop
  massert (userVmemStart ≤ newHeapTop)
    "uvm_heap_ungrow: new heap top out of range"
  heapUngrowLoop pgtbl ((ptr.toNat - alignedNewHeapTop.toNat) / 4096) ptr
  return newHeapTop

/-- The loop of `uvm_copyin`; `done` bytes are copied. -/
def copyinLoop (pgtbl dst src : UInt64) (len : UInt32) :
    (turns : Nat) → (srcbeg : UInt64) → (done : Nat) → MemM Unit
  | 0, _, _ => return
  | turns + 1, srcbeg, done => do
      match ← vmGetpte pgtbl srcbeg false with
      | none => Exec.stop (.panic
          "uvm_copyin: can't find page contains address %p")
      | some pte => do
          let pte := (← readMem).load64 pte
          massert (pteValid pte)
            "uvm_copyin: can't find page contains address %p"
          let paddr := pteToPa pte
          let dstbeg := dst + UInt64.ofNat done
          if srcbeg ≤ src then
            let n := min (4096 - src.toNat % 4096) len.toNat
            updateMem fun m =>
              m.memcpy dstbeg.toNat (paddr.toNat + src.toNat % 4096) n
            copyinLoop pgtbl dst src len turns (srcbeg + pgsize) (done + n)
          else if src + len.toUInt64 ≤ paddr + pgsize then
            let n := (src + len.toUInt64 - srcbeg).toUInt32.toNat
            updateMem fun m => m.memcpy dstbeg.toNat paddr.toNat n
            copyinLoop pgtbl dst src len turns (srcbeg + pgsize) (done + n)
          else
            updateMem fun m => m.memcpy dstbeg.toNat paddr.toNat 4096
            copyinLoop pgtbl dst src len turns (srcbeg + pgsize) (done + 4096)

/-- `uvm_copyin`; the loop ends at the first page that starts at `src + len` or
above it. -/
def uvmCopyin (pgtbl dst src : UInt64) (len : UInt32) : MemM Unit :=
  let srcbeg := pgrounddown src
  copyinLoop pgtbl dst src len
    (((src + len.toUInt64).toNat - srcbeg.toNat + 4095) / 4096) srcbeg 0

/-- The loop of `uvm_copyout`; `src` has the bytes of the buffer in the kernel,
`done` of them are copied. -/
def copyoutLoop (pgtbl dst : UInt64) (src : Nat → UInt8) (len : UInt32) :
    (turns : Nat) → (dstbeg : UInt64) → (done : Nat) → MemM Unit
  | 0, _, _ => return
  | turns + 1, dstbeg, done => do
      match ← vmGetpte pgtbl dstbeg false with
      | none => Exec.stop (.panic
          "uvm_copyout: can't find page contains address %p")
      | some pte => do
          let pte := (← readMem).load64 pte
          massert (pteValid pte)
            "uvm_copyout: can't find page contains address %p"
          let paddr := pteToPa pte
          if dstbeg ≤ dst then
            let n := min (4096 - dst.toNat % 4096) len.toNat
            updateMem fun m => m.write (paddr.toNat + dst.toNat % 4096) n
              fun i => src (done + i)
            copyoutLoop pgtbl dst src len turns (dstbeg + pgsize) (done + n)
          else if dst + len.toUInt64 ≤ paddr + pgsize then
            let n := (dst + len.toUInt64 - dstbeg).toUInt32.toNat
            updateMem fun m => m.write paddr.toNat n fun i => src (done + i)
            copyoutLoop pgtbl dst src len turns (dstbeg + pgsize) (done + n)
          else
            updateMem fun m => m.write paddr.toNat 4096 fun i => src (done + i)
            copyoutLoop pgtbl dst src len turns (dstbeg + pgsize) (done + 4096)

/-- `uvm_copyout`; the loop ends at the first page that starts at `dst + len` or
above it. -/
def uvmCopyout (pgtbl dst : UInt64) (src : Nat → UInt8) (len : UInt32) :
    MemM Unit :=
  let dstbeg := pgrounddown dst
  copyoutLoop pgtbl dst src len
    (((dst + len.toUInt64).toNat - dstbeg.toNat + 4095) / 4096) dstbeg 0

/-- What `uvm_copyin_str` reads from and the page it goes to next.  The offset
tells a new page, and so does the frame in the first turn. -/
def copyinStrPage (pgtbl offset srcbeg paddr : UInt64) : MemM (UInt64 × UInt64) :=
  if paddr = 0 ∨ offset &&& 0xfff = 0 then do
    match ← vmGetpte pgtbl srcbeg false with
    | none => Exec.stop (.panic
        "uvm_copyin_str: can't find page contains address %p")
    | some pte => do
        let pte := (← readMem).load64 pte
        massert (pteValid pte)
          "uvm_copyin_str: can't find page contains address %p"
        return (srcbeg + pgsize, pteToPa pte)
  else
    return (srcbeg, paddr)

def copyinStrLoop (pgtbl : UInt64) :
    (turns : Nat) → (dstbeg offset srcbeg paddr : UInt64) → MemM Unit
  | 0, _, _, _, _ => return
  | turns + 1, dstbeg, offset, srcbeg, paddr => do
      let (srcbeg, paddr) ← copyinStrPage pgtbl offset srcbeg paddr
      let c := (← readMem) (paddr + offset).toNat
      updateMem fun m => m.write dstbeg.toNat 1 fun _ => c
      if c ≠ 0 then
        copyinStrLoop pgtbl turns (dstbeg + 1) (offset + 1) srcbeg paddr
      else
        return

def uvmCopyinStr (pgtbl dst src : UInt64) (maxlen : UInt32) : MemM Unit :=
  copyinStrLoop pgtbl maxlen.toNat dst (src &&& 0xfff) (pgrounddown src) 0

def forEntries (f : UInt64 → MemM Unit) (pgtbl : UInt64) : List Vpn → MemM Unit
  | [] => return
  | idx :: rest => do
      let pte := entry (← readMem) pgtbl idx
      if pteValid pte then
        f (pteToPa pte)
      forEntries f pgtbl rest

def uvmDestroyPgtbl : (level : Nat) → (pgtbl : UInt64) → MemM Unit
  | 0, pgtbl => pmemFree pgtbl false
  | level + 1, pgtbl => do
      if level = pgtableToplevel then
        vmUnmappages pgtbl trapframe pgsize false
        vmUnmappages pgtbl trampoline pgsize false
      forEntries (uvmDestroyPgtbl level) pgtbl (List.finRange 512)
      pmemFree pgtbl true

end UnoOS.Uvm
